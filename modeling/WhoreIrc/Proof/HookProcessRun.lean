import WhoreIrc.Proof.HookProcess

/-!
# Runs of a process

What the callback gets of the output of a child, in which calls, how long the
hook can live, and which lines an executed command displays. What a child has
left in its pipes when it ended is read to the end, if the reads give what is
there (`ProcessRun.Left`).
-/

namespace Wirc

open Framework

variable {detached : Bool} {bufferFlush : Option Str} {timeout : Int} {events : List ProcessEvent} {s : ProcessRun}

/-! ## What is left when the child has ended -/

/-- The bytes that were read. -/
def ProcessRun.got (s : ProcessRun) (index : ProcessStream) : List Byte :=
  delivered index s.hook.calls ++ s.hook.buffer index

/-- The bytes that were written when the child ended are read, or the rounds that are left are enough for them. -/
structure ProcessRun.Left (target : ProcessStream → List Byte) (status : Nat) (s : ProcessRun) : Prop where
  inv : s.Inv
  starts : ∀ index, target index <+: s.written index
  reads : s.hook.point ≠ .wait
  left : ∀ count callbackRc, s.hook.point = .untilEof count callbackRc →
    ∀ index, (target index).length ≤ (s.got index).length + (1024 - count) * hookProcessReadSize
  got : s.hook.point = .deleted → ∀ index, (target index).length ≤ (delivered index s.hook.calls).length
  code : ∀ count callbackRc, s.hook.point = .untilEof count callbackRc → callbackRc = status
  last : s.hook.point = .deleted → ∃ last, s.hook.calls.getLast? = some last ∧ last.returnCode = status

theorem ProcessRun.Inv.got_pipe (h : s.Inv) (hpoint : s.hook.point ≠ .deleted) (index : ProcessStream) :
    s.got index ++ s.pipe index = s.written index := by
  have hstream := h.stream index
  rw [h.dropped hpoint, List.append_nil] at hstream
  exact hstream

/-- A pipe that is empty was read to its end. -/
theorem ProcessRun.Left.le_of_empty {target : ProcessStream → List Byte} {status : Nat} (h : s.Left target status)
    (hpoint : s.hook.point ≠ .deleted) {index : ProcessStream} (hempty : s.pipe index = []) :
    (target index).length ≤ (s.got index).length := by
  have hgot := h.inv.got_pipe hpoint index
  rw [hempty, List.append_nil] at hgot
  rw [hgot]
  exact (h.starts index).length_le

/-- A round that gives what is there reads a pipe to its end, or as much as one read may give. -/
theorem ProcessRound.Full.taken {target : ProcessStream → List Byte} {status : Nat} (h : s.Left target status)
    (hpoint : s.hook.point ≠ .deleted) {round : ProcessRound} (hfull : round.Full s) (index : ProcessStream) :
    (target index).length ≤ (s.got index).length + ((round.result s.hook index).taken (s.pipe index)).length ∨
      ((round.result s.hook index).taken (s.pipe index)).length = hookProcessReadSize := by
  by_cases hempty : s.pipe index = []
  · exact .inl (Nat.le_add_right_of_le (h.le_of_empty hpoint hempty))
  · obtain ⟨-, hpollin, hread⟩ := hfull index hempty
    have hopen : s.hook.hookFd index = true := by
      by_contra hclosed
      exact hempty (h.inv.fd hpoint index (Bool.not_eq_true _ ▸ hclosed)).1
    have hresult : round.result s.hook index = .ok (min hookProcessReadSize (s.pipe index).length) := by
      rw [ProcessRound.result, hopen, hpollin]
      exact hread
    rw [hresult, Sys.taken, List.length_take]
    by_cases hle : (s.pipe index).length ≤ hookProcessReadSize
    · have hwritten := congrArg List.length (h.inv.got_pipe hpoint index)
      rw [List.length_append] at hwritten
      have htarget := (h.starts index).length_le
      refine .inl ?_
      rw [Nat.min_eq_right hle, Nat.min_self]
      omega
    · refine .inr ?_
      have hlt := Nat.lt_of_not_ge hle
      rw [Nat.min_eq_left (Nat.le_of_lt hlt), Nat.min_eq_left (Nat.le_of_lt hlt)]

theorem ProcessRun.Left.poll {target : ProcessStream → List Byte} {status : Nat} (h : s.Left target status)
    {count : Nat} {callbackRc : Int}
    (hpoint : s.hook.point = .untilEof count callbackRc) {round : ProcessRound} (hfull : round.Full s)
    (hreads : ∀ index, round.pollin index = true → s.Reads index (round.numRead index)) {s' : ProcessRun}
    (hstep : s.step (.poll round) = some s') : s'.Left target status := by
  have hne : s.hook.point ≠ .deleted := ne_deleted_of_untilEof hpoint
  have hlegal : (ProcessEvent.poll round).Legal s := ⟨⟨count, callbackRc, hpoint⟩, hreads⟩
  have hinv : s'.Inv := h.inv.next hlegal hstep
  rw [ProcessRun.step, hpoint] at hstep
  dsimp only at hstep
  by_cases hgo : count < 1024 ∧ (s.hook.hookFd .stdout ∨ s.hook.hookFd .stderr) ∧ round.ready.positive
  · have hread (index : ProcessStream) : (round.result s.hook index).Gives (· ≤ hookProcessReadSize) := by
      have hindex := ProcessRun.result_gives hreads index
      cases hr : round.result s.hook index with
      | ok n =>
        rw [hr] at hindex
        exact hindex.1
      | again => trivial
      | intr => trivial
      | error => trivial
    obtain ⟨hook', hround, -, hmoves, -⟩ := readRound_moves h.inv.small hne s.pipe callbackRc hread hgo
    rw [hround] at hstep
    cases hstep
    obtain ⟨calls, hcalls, -, heq⟩ := hmoves.calls
    refine ⟨hinv, h.starts, ne_wait_of_untilEof rfl, fun count' callbackRc' hpoint' index => ?_,
      fun hdeleted => absurd hdeleted (ne_deleted_of_untilEof rfl), fun count' callbackRc' hpoint' => ?_,
      fun hdeleted => absurd hdeleted (ne_deleted_of_untilEof rfl)⟩
    rotate_left
    · cases hpoint'
      exact h.code count callbackRc hpoint
    cases hpoint'
    have hgot : delivered index hook'.calls ++ hook'.buffer index =
        s.got index ++ (round.result s.hook index).taken (s.pipe index) := by
      have hcalls' : hook'.calls = s.hook.calls ++ calls := hcalls
      have hbuffer : delivered index calls ++ hook'.buffer index =
          s.hook.buffer index ++ (round.result s.hook index).taken (s.pipe index) := heq index
      rw [hcalls', delivered_append, List.append_assoc, hbuffer, ProcessRun.got, List.append_assoc]
    have hleft := h.left count callbackRc hpoint index
    have hrounds : 1024 - count = 1024 - (count + 1) + 1 := by omega
    rw [ProcessRun.got, hgot, List.length_append]
    rw [hrounds, Nat.succ_mul] at hleft
    rcases hfull.taken h hne index with htaken | htaken
    · exact Nat.le_add_right_of_le htaken
    · omega
  · rw [readRound_end h.inv.small s.pipe callbackRc hgo] at hstep
    cases hstep
    refine ⟨hinv, h.starts, ne_wait_of_deleted rfl,
      fun count' callbackRc' heq => absurd heq (ne_untilEof_of_deleted rfl count' callbackRc'), fun _ index => ?_,
      fun count' callbackRc' heq => absurd heq (ne_untilEof_of_deleted rfl count' callbackRc'),
      fun _ => ⟨s.hook.call callbackRc, List.getLast?_concat, h.code count callbackRc hpoint⟩⟩
    have hgot : delivered index (s.hook.calls ++ [s.hook.call callbackRc]) = s.got index := by
      rw [delivered_append, delivered_call, ProcessRun.got]
    dsimp only [hookProcessUnhook, HookProcess.sent]
    rw [hgot]
    by_cases hempty : s.pipe index = []
    · exact h.le_of_empty hne hempty
    · -- there is something to read, so the loop ends because of its rounds
      obtain ⟨hready, -, -⟩ := hfull index hempty
      have hopen : s.hook.hookFd index = true := by
        by_contra hclosed
        exact hempty (h.inv.fd hne index (Bool.not_eq_true _ ▸ hclosed)).1
      have hfds : s.hook.hookFd .stdout ∨ s.hook.hookFd .stderr := by
        cases index with
        | stdout => exact .inl hopen
        | stderr => exact .inr hopen
      have hcount : 1024 ≤ count := Nat.le_of_not_lt fun hlt => hgo ⟨hlt, hfds, hready⟩
      have hleft := h.left count callbackRc hpoint index
      rwa [Nat.sub_eq_zero_of_le hcount, Nat.zero_mul, Nat.add_zero] at hleft

theorem ProcessRun.Left.step {target : ProcessStream → List Byte} {status : Nat} (h : s.Left target status)
    {event : ProcessEvent}
    (hlegal : event.Legal s ∧ event.Full s) {s' : ProcessRun} (hstep : s.step event = some s') :
    s'.Left target status := by
  have hinv : s'.Inv := h.inv.next hlegal.1 hstep
  cases event with
  | write index bytes =>
    cases hstep
    refine ⟨hinv, fun i => ?_, h.reads, h.left, h.got, h.code, h.last⟩
    dsimp only
    by_cases hi : i = index
    · subst hi
      rw [Function.update_self]
      exact (h.starts i).trans (List.prefix_append _ _)
    · rw [Function.update_of_ne hi]
      exact h.starts i
  | close index =>
    cases hstep
    exact ⟨hinv, h.starts, h.reads, h.left, h.got, h.code, h.last⟩
  | poll round =>
    obtain ⟨⟨count, callbackRc, hpoint⟩, hreads⟩ := hlegal.1
    exact h.poll hpoint hlegal.2 hreads hstep
  | read index numRead => exact absurd hlegal.1.1 h.reads
  | timer wait => exact absurd hlegal.1 h.reads
  | unhook => exact absurd hlegal.1 h.reads

/-- The child has exited, and a read of its pipes may give what they have in the rounds that there are. -/
theorem ProcessRun.Inv.exited (h : s.Inv) {status : Nat} (hpoint : s.hook.point = .wait)
    (hcalls : s.hook.remainingCalls ≠ 1) (hpipe : ∀ index, (s.pipe index).length ≤ 1024 * hookProcessReadSize)
    {s' : ProcessRun} (hstep : s.step (.timer (.exited status)) = some s') : s'.Left s.written status := by
  have hne : s.hook.point ≠ .deleted := ne_deleted_of_wait hpoint
  have hlegal : (ProcessEvent.timer (.exited status)).Legal s := hpoint
  have hinv : s'.Inv := h.next hlegal hstep
  rw [ProcessRun.step, timerExec_eq h.small hpoint, if_neg hcalls] at hstep
  cases hstep
  refine ⟨hinv, fun index => List.prefix_refl _, ne_wait_of_untilEof rfl, fun count callbackRc hcount index => ?_,
    fun hdeleted => absurd hdeleted (ne_deleted_of_untilEof rfl), fun count callbackRc hcount => ?_,
    fun hdeleted => absurd hdeleted (ne_deleted_of_untilEof rfl)⟩
  rotate_left
  · cases hcount
    rfl
  cases hcount
  have hgot := congrArg List.length (h.got_pipe hne index)
  rw [List.length_append] at hgot
  have hlen := hpipe index
  rw [← hgot]
  exact Nat.add_le_add_left hlen _

/-! ## The callback -/

/-- A child writes to both streams and exits. -/
def helloBefore : List ProcessEvent :=
  [.write .stdout [104, 105, 10], .read .stdout (.ok 2), .write .stderr [33], .close .stdout, .close .stderr]

def helloAfter : List ProcessEvent :=
  [.poll ⟨.ok 2, fun _ => true, fun _ => .ok 1⟩, .poll ⟨.ok 2, fun _ => true, fun _ => .ok 0⟩,
    .poll ⟨.again, fun _ => false, fun _ => .again⟩]

def helloEvents : List ProcessEvent := helloBefore ++ .timer (.exited 3) :: helloAfter

theorem reads_ok {s : ProcessRun} {index : ProcessStream} {n : Nat} (hsize : n ≤ hookProcessReadSize)
    (hlen : n ≤ (s.pipe index).length) (heof : n = 0 → s.pipe index = [] ∧ s.closed index = true) :
    s.Reads index (.ok n) := ⟨hsize, hlen, heof⟩

theorem helloRun : (processStart false none 1000).Run (helloBefore ++ .timer (.exited 3) :: helloAfter) := by
  refine .cons rfl rfl ?_
  refine .cons ⟨rfl, rfl, reads_ok (by decide) (by decide) nofun⟩ rfl ?_
  refine .cons rfl rfl (.cons trivial rfl (.cons trivial rfl (.cons rfl rfl ?_)))
  refine .cons ⟨⟨0, 3, rfl⟩, fun index _ => ?_⟩ rfl ?_
  · cases index <;> exact reads_ok (by decide) (by decide) nofun
  refine .cons ⟨⟨1, 3, rfl⟩, fun index _ => ?_⟩ rfl ?_
  · cases index <;> exact reads_ok (by decide) (by decide) fun _ => ⟨rfl, rfl⟩
  refine .cons ⟨⟨2, 3, rfl⟩, nofun⟩ rfl trivial

/-- The buffers never overflow: no event of a run writes outside of them. -/
theorem hookProcess_safe (h : (processStart detached bufferFlush timeout).Run events) :
    ∃ s, events.foldlM ProcessRun.step (processStart detached bufferFlush timeout) = some s ∧
      (∀ index, (s.hook.buffer index).length < s.hook.bufferFlush) ∧ s.hook.bufferFlush ≤ hookProcessBufferSize ∧
      ∀ call ∈ s.hook.calls, call.Fits := by
  obtain ⟨s, hs, hinv⟩ := alongM_states (fun _ _ hI hP => ProcessRun.Inv.step hI hP)
    (processStart_inv detached bufferFlush timeout) h (List.append_nil events).symm
  exact ⟨s, hs, hinv.small.lt, hinv.small.flush_le, hinv.fits⟩

theorem hookProcess_safe_hello :
    ∃ s, helloEvents.foldlM ProcessRun.step (processStart false none 1000) = some s ∧
      (∀ index, (s.hook.buffer index).length < s.hook.bufferFlush) ∧ s.hook.bufferFlush ≤ hookProcessBufferSize ∧
      ∀ call ∈ s.hook.calls, call.Fits := hookProcess_safe helloRun

/-- The callback gets what the child writes to a stream: no byte is lost, added or given twice while the hook
lives, and when the callback is told the end it has got all that was read. -/
theorem hookProcess_stream (h : (processStart detached bufferFlush timeout).Run events)
    (hrun : events.foldlM ProcessRun.step (processStart detached bufferFlush timeout) = some s)
    (index : ProcessStream) :
    delivered index s.hook.calls <+: s.written index ∧
      (s.hook.point ≠ .deleted →
        delivered index s.hook.calls ++ s.hook.buffer index ++ s.pipe index = s.written index) ∧
      (s.Ended → delivered index s.hook.calls ++ s.pipe index = s.written index) := by
  have hinv :=
    ProcessRun.Run.inv (processStart_inv detached bufferFlush timeout) ((List.append_nil events).symm ▸ h) hrun
  have hstream := hinv.stream index
  refine ⟨?_, fun hpoint => hinv.got_pipe hpoint index, fun hended => ?_⟩
  · rw [← hstream, List.append_assoc, List.append_assoc]
    exact List.prefix_append _ _
  · obtain ⟨hbuffer, hdropped⟩ := hinv.ended hended index
    rw [hbuffer, hdropped, List.append_nil, List.append_nil] at hstream
    exact hstream

theorem hookProcess_stream_hello :
    ∃ s, helloEvents.foldlM ProcessRun.step (processStart false none 1000) = some s ∧
      delivered .stdout s.hook.calls ++ s.pipe .stdout = s.written .stdout :=
  ⟨_, rfl, (hookProcess_stream helloRun rfl .stdout).2.2 ⟨_, List.mem_singleton_self _, .inr (by decide)⟩⟩

/-- Calls are added to those that were made. -/
theorem ProcessRun.Inv.step_calls (h : s.Inv) {event : ProcessEvent} (hlegal : event.Legal s) {s' : ProcessRun}
    (hstep : s.step event = some s') :
    s.hook.calls <+: s'.hook.calls ∧ (s.hook.point = .deleted → s'.hook = s.hook) := by
  cases event with
  | write index bytes =>
    cases hstep
    exact ⟨List.prefix_refl _, fun _ => rfl⟩
  | close index =>
    cases hstep
    exact ⟨List.prefix_refl _, fun _ => rfl⟩
  | read index numRead =>
    obtain ⟨hpoint, -, hreads⟩ := hlegal
    obtain ⟨hook', hread, -, hmoves, -⟩ :=
      childRead_moves h.small (ne_deleted_of_wait hpoint) index (s.pipe index) hreads.le
    rw [ProcessRun.step, hread] at hstep
    cases hstep
    obtain ⟨calls, hcalls, -, -⟩ := hmoves.calls
    exact ⟨⟨calls, hcalls.symm⟩, fun hdeleted => absurd hdeleted (ne_deleted_of_wait hpoint)⟩
  | timer wait =>
    have hpoint : s.hook.point = .wait := hlegal
    rw [ProcessRun.step, timerExec_eq h.small hpoint] at hstep
    refine ⟨?_, fun hdeleted => absurd hdeleted (ne_deleted_of_wait hpoint)⟩
    split at hstep
    next =>
      cases hstep
      exact List.prefix_append _ _
    next =>
      cases hstep
      exact List.prefix_refl _
  | poll round =>
    obtain ⟨⟨count, callbackRc, hpoint⟩, hreads⟩ := hlegal
    have hne : s.hook.point ≠ .deleted := ne_deleted_of_untilEof hpoint
    refine ⟨?_, fun hdeleted => absurd hdeleted hne⟩
    rw [ProcessRun.step, hpoint] at hstep
    dsimp only at hstep
    by_cases hgo : count < 1024 ∧ (s.hook.hookFd .stdout ∨ s.hook.hookFd .stderr) ∧ round.ready.positive
    · obtain ⟨hook', hround, -, hmoves, -⟩ :=
        readRound_moves h.small hne s.pipe callbackRc (ProcessRun.result_le hreads) hgo
      rw [hround] at hstep
      cases hstep
      obtain ⟨calls, hcalls, -, -⟩ := hmoves.calls
      exact ⟨calls, hcalls.symm⟩
    · rw [readRound_end h.small s.pipe callbackRc hgo] at hstep
      cases hstep
      exact List.prefix_append _ _
  | unhook =>
    cases hstep
    exact ⟨List.prefix_refl _, fun hdeleted => absurd hdeleted (ne_deleted_of_wait hlegal)⟩

/-- While the child runs the callback always gets some output; it is told the end at most once, after which the
hook is deleted and nothing is called. -/
theorem hookProcess_calls {events' : List ProcessEvent} {s' : ProcessRun}
    (h : (processStart detached bufferFlush timeout).Run (events ++ events'))
    (hrun : events.foldlM ProcessRun.step (processStart detached bufferFlush timeout) = some s)
    (hrun' : events'.foldlM ProcessRun.step s = some s') :
    ProcessCalls s'.hook.point s'.hook.calls ∧ s.hook.calls <+: s'.hook.calls ∧
      (s.hook.point = .deleted → s'.hook = s.hook) := by
  have hinv : s.Inv := h.inv (processStart_inv detached bufferFlush timeout) hrun
  have hkept : s'.Inv ∧ s.hook.calls <+: s'.hook.calls ∧ (s.hook.point = .deleted → s'.hook = s.hook) := by
    refine alongM_invariant (P := ProcessEvent.Legal)
      (I := fun s' => s'.Inv ∧ s.hook.calls <+: s'.hook.calls ∧ (s.hook.point = .deleted → s'.hook = s.hook))
      (fun s₁ event s₂ hI hP hs => ?_) ⟨hinv, List.prefix_refl _, fun _ => rfl⟩ (h.drop hrun)
      (List.append_nil _).symm hrun'
    obtain ⟨hinv₁, hcalls, hsame⟩ := hI
    obtain ⟨hcalls', hsame'⟩ := hinv₁.step_calls hP hs
    refine ⟨hinv₁.next hP hs, hcalls.trans hcalls', fun hdeleted => ?_⟩
    have hhook := hsame hdeleted
    rw [hsame' (by rw [hhook]; exact hdeleted), hhook]
  exact ⟨hkept.1.calls, hkept.2⟩

theorem hookProcess_calls_hello :
    ∃ s s', helloBefore.foldlM ProcessRun.step (processStart false none 1000) = some s ∧
      (ProcessEvent.timer (.exited 3) :: helloAfter).foldlM ProcessRun.step s = some s' ∧
      ProcessCalls s'.hook.point s'.hook.calls ∧ s.hook.calls <+: s'.hook.calls ∧
      (s.hook.point = .deleted → s'.hook = s.hook) := ⟨_, _, rfl, rfl, hookProcess_calls helloRun rfl rfl⟩

/-- A child that exits: when the callback is told so, with its status, it has got all that was written before, if
`poll` and `read` give what is there. -/
theorem hookProcess_exit {status : Nat} {after : List ProcessEvent} {s' : ProcessRun}
    (h : (processStart detached bufferFlush timeout).Run (events ++ .timer (.exited status) :: after))
    (hrun : events.foldlM ProcessRun.step (processStart detached bufferFlush timeout) = some s)
    (hcalls : s.hook.remainingCalls ≠ 1) (hpipe : ∀ index, (s.pipe index).length ≤ 1024 * hookProcessReadSize)
    (hfull : AlongM ProcessRun.step ProcessEvent.Full s (.timer (.exited status) :: after))
    (hrun' : (ProcessEvent.timer (.exited status) :: after).foldlM ProcessRun.step s = some s')
    (hend : s'.hook.point = .deleted) :
    (∀ index, s.written index <+: delivered index s'.hook.calls) ∧
      ∃ last, s'.hook.calls.getLast? = some last ∧ last.returnCode = status := by
  have hinv := h.inv (processStart_inv detached bufferFlush timeout) hrun
  have hrest := h.drop hrun
  rw [List.foldlM_cons, Option.bind_eq_bind, Option.bind_eq_some_iff] at hrun'
  obtain ⟨s₁, hs₁, hrun'⟩ := hrun'
  have hstart : s₁.Left s.written status := hinv.exited hrest.1 hcalls hpipe hs₁
  have hboth := (hrest.2 s₁ hs₁).and (hfull.2 s₁ hs₁)
  have hleft : s'.Left s.written status :=
    alongM_invariant (fun _ _ _ hI hP hs => ProcessRun.Left.step hI hP hs) hstart hboth (List.append_nil _).symm hrun'
  refine ⟨fun index => ?_, hleft.last hend⟩
  have hprefix : delivered index s'.hook.calls <+: s'.written index := by
    rw [← hleft.inv.stream index, List.append_assoc, List.append_assoc]
    exact List.prefix_append _ _
  exact List.prefix_of_prefix_length_le (hleft.starts index) hprefix (hleft.got hend index)

theorem hookProcess_exit_hello :
    ∃ s s', helloBefore.foldlM ProcessRun.step (processStart false none 1000) = some s ∧
      (ProcessEvent.timer (.exited 3) :: helloAfter).foldlM ProcessRun.step s = some s' ∧
      (∀ index, s.written index <+: delivered index s'.hook.calls) ∧
      ∃ last, s'.hook.calls.getLast? = some last ∧ last.returnCode = 3 := by
  refine ⟨_, _, rfl, rfl, hookProcess_exit helloRun rfl (by decide) (fun index => ?_) ?_ rfl rfl⟩
  · cases index <;> decide
  · refine .cons trivial rfl (.cons (fun index hne => ?_) rfl (.cons (fun index hne => ?_) rfl ?_))
    · cases index <;> exact ⟨rfl, rfl, rfl⟩
    · cases index <;> exact absurd rfl hne
    · refine .cons (fun index hne => ?_) rfl trivial
      cases index <;> exact absurd rfl hne

/-! ## How long a hook lives -/

/-- The calls of the timer that may still come. -/
def ProcessRun.timerBudget (s : ProcessRun) : Nat := if s.hook.point = .wait then s.hook.remainingCalls.toNat else 0

/-- The rounds of the last reads that may still come. -/
def ProcessPoint.pollBudget : ProcessPoint → Nat
  | .wait => 1025
  | .untilEof count _ => 1025 - count
  | .deleted => 0

def ProcessRun.pollBudget (s : ProcessRun) : Nat := s.hook.point.pollBudget

/-- What an event does to the point where the hook waits, and to its timer. -/
theorem ProcessRun.Inv.step_point (h : s.Inv) {event : ProcessEvent} (hlegal : event.Legal s) {s' : ProcessRun}
    (hstep : s.step event = some s') :
    match event with
    | .timer wait => s.hook.point = .wait ∧
        if s.hook.remainingCalls = 1 then s'.hook.point = .deleted
        else s'.hook.point = wait.point ∧ s'.hook.remainingCalls = remainingAfter s.hook.remainingCalls
    | .poll _ => ∃ count callbackRc, s.hook.point = .untilEof count callbackRc ∧
        (s'.hook.point = .deleted ∨ count < 1024 ∧ s'.hook.point = .untilEof (count + 1) callbackRc)
    | .unhook => s.hook.point = .wait ∧ s'.hook.point = .deleted
    | _ => s'.hook.point = s.hook.point ∧ s'.hook.remainingCalls = s.hook.remainingCalls := by
  cases event with
  | write index bytes =>
    cases hstep
    exact ⟨rfl, rfl⟩
  | close index =>
    cases hstep
    exact ⟨rfl, rfl⟩
  | read index numRead =>
    obtain ⟨hpoint, -, hreads⟩ := hlegal
    have hne : s.hook.point ≠ .deleted := ne_deleted_of_wait hpoint
    obtain ⟨hook', hread, -, hmoves, -⟩ := childRead_moves h.small hne index (s.pipe index) hreads.le
    rw [ProcessRun.step, hread] at hstep
    cases hstep
    exact ⟨hmoves.point, hmoves.remainingCalls⟩
  | timer wait =>
    have hpoint : s.hook.point = .wait := hlegal
    rw [ProcessRun.step, timerExec_eq h.small hpoint] at hstep
    dsimp only
    split at hstep
    next hlast =>
      cases hstep
      rw [if_pos hlast]
      exact ⟨hpoint, rfl⟩
    next hlast =>
      cases hstep
      rw [if_neg hlast]
      exact ⟨hpoint, rfl, rfl⟩
  | poll round =>
    obtain ⟨⟨count, callbackRc, hpoint⟩, hreads⟩ := hlegal
    have hne : s.hook.point ≠ .deleted := ne_deleted_of_untilEof hpoint
    refine ⟨count, callbackRc, hpoint, ?_⟩
    rw [ProcessRun.step, hpoint] at hstep
    dsimp only at hstep
    by_cases hgo : count < 1024 ∧ (s.hook.hookFd .stdout ∨ s.hook.hookFd .stderr) ∧ round.ready.positive
    · obtain ⟨hook', hround, -, hmoves, -⟩ :=
        readRound_moves h.small hne s.pipe callbackRc (ProcessRun.result_le hreads) hgo
      rw [hround] at hstep
      cases hstep
      exact .inr ⟨hgo.1, rfl⟩
    · rw [readRound_end h.small s.pipe callbackRc hgo] at hstep
      cases hstep
      exact .inl rfl
  | unhook =>
    cases hstep
    exact ⟨hlegal, rfl⟩

/-- A call of the timer takes one from the calls that are left. -/
theorem ProcessRun.Inv.step_timer (h : s.Inv) (hpos : s.hook.point = .wait → 0 < s.hook.remainingCalls)
    {event : ProcessEvent} (hlegal : event.Legal s) {s' : ProcessRun} (hstep : s.step event = some s') :
    (s'.hook.point = .wait → 0 < s'.hook.remainingCalls) ∧
      s'.timerBudget + (if event.isTimer then 1 else 0) ≤ s.timerBudget := by
  have hsame (hpoint : s'.hook.point = s.hook.point) (hcalls : s'.hook.remainingCalls = s.hook.remainingCalls) :
      (s'.hook.point = .wait → 0 < s'.hook.remainingCalls) ∧ s'.timerBudget + 0 ≤ s.timerBudget := by
    rw [ProcessRun.timerBudget, ProcessRun.timerBudget, hpoint, hcalls]
    exact ⟨hpos, Nat.le_refl _⟩
  have hgone (hpoint : s'.hook.point ≠ .wait) :
      (s'.hook.point = .wait → 0 < s'.hook.remainingCalls) ∧ s'.timerBudget = 0 :=
    ⟨fun hwait => absurd hwait hpoint, if_neg hpoint⟩
  have hpoint := h.step_point hlegal hstep
  cases event with
  | write index bytes => exact hsame hpoint.1 hpoint.2
  | close index => exact hsame hpoint.1 hpoint.2
  | read index numRead => exact hsame hpoint.1 hpoint.2
  | timer wait =>
    obtain ⟨hwait, hlast⟩ := hpoint
    have hleft := hpos hwait
    have hbudget : s.timerBudget = s.hook.remainingCalls.toNat := if_pos hwait
    by_cases hwait' : s'.hook.point = .wait
    · have hone : s.hook.remainingCalls ≠ 1 := by
        intro hone
        rw [if_pos hone, hwait'] at hlast
        cases hlast
      rw [if_neg hone] at hlast
      have hafter : s'.hook.remainingCalls = s.hook.remainingCalls - 1 := hlast.2.trans (if_pos hleft)
      have hbudget' : s'.timerBudget = s'.hook.remainingCalls.toNat := if_pos hwait'
      rw [hbudget, hbudget', hafter]
      exact ⟨fun _ => by omega, by rw [ProcessEvent.isTimer, if_pos rfl]; omega⟩
    · obtain ⟨hpos', hbudget'⟩ := hgone hwait'
      rw [hbudget, hbudget']
      exact ⟨hpos', by rw [ProcessEvent.isTimer, if_pos rfl]; omega⟩
  | poll round =>
    obtain ⟨count, callbackRc, -, hpoint'⟩ := hpoint
    have hne : s'.hook.point ≠ .wait := by
      rcases hpoint' with hpoint' | ⟨-, hpoint'⟩
      · exact ne_wait_of_deleted hpoint'
      · exact ne_wait_of_untilEof hpoint'
    obtain ⟨hpos', hbudget'⟩ := hgone hne
    exact ⟨hpos', by rw [hbudget']; exact Nat.zero_le _⟩
  | unhook =>
    obtain ⟨hpos', hbudget'⟩ := hgone (ne_wait_of_deleted hpoint.2)
    exact ⟨hpos', by rw [hbudget']; exact Nat.zero_le _⟩

theorem ProcessRun.Inv.step_poll (h : s.Inv)
    (hcount : ∀ count callbackRc, s.hook.point = .untilEof count callbackRc → count ≤ 1024)
    {event : ProcessEvent} (hlegal : event.Legal s) {s' : ProcessRun} (hstep : s.step event = some s') :
    (∀ count callbackRc, s'.hook.point = .untilEof count callbackRc → count ≤ 1024) ∧
      s'.pollBudget + (if event.isPoll then 1 else 0) ≤ s.pollBudget := by
  have hsame (hpoint : s'.hook.point = s.hook.point) :
      (∀ count callbackRc, s'.hook.point = .untilEof count callbackRc → count ≤ 1024) ∧
        s'.pollBudget + 0 ≤ s.pollBudget := by
    rw [ProcessRun.pollBudget, ProcessRun.pollBudget, hpoint]
    exact ⟨hcount, Nat.le_refl _⟩
  have hpoint := h.step_point hlegal hstep
  cases event with
  | write index bytes => exact hsame hpoint.1
  | close index => exact hsame hpoint.1
  | read index numRead => exact hsame hpoint.1
  | timer wait =>
    obtain ⟨hwait, hlast⟩ := hpoint
    rw [ProcessRun.pollBudget, ProcessRun.pollBudget, hwait]
    split at hlast
    next =>
      rw [hlast]
      exact ⟨fun count callbackRc heq => absurd heq (ne_untilEof_of_deleted rfl _ _), Nat.zero_le _⟩
    next =>
      rw [hlast.1]
      refine ⟨fun count callbackRc heq => ?_, ?_⟩
      · cases wait with
        | none => cases heq
        | other => cases heq
        | signaled =>
          cases heq
          exact Nat.zero_le _
        | exited status =>
          cases heq
          exact Nat.zero_le _
      · cases wait <;> exact Nat.le_refl 1025
  | poll round =>
    obtain ⟨count, callbackRc, hwas, hpoint'⟩ := hpoint
    have hle := hcount count callbackRc hwas
    rw [ProcessRun.pollBudget, ProcessRun.pollBudget, hwas]
    rcases hpoint' with hpoint' | ⟨hlt, hpoint'⟩
    · rw [hpoint']
      refine ⟨fun count callbackRc heq => absurd heq (ne_untilEof_of_deleted rfl _ _), ?_⟩
      have hone : 0 + 1 ≤ 1025 - count := by omega
      exact hone
    · rw [hpoint']
      refine ⟨fun count' callbackRc' heq => ?_, ?_⟩
      · cases heq
        exact hlt
      · have hnext : 1025 - (count + 1) + 1 ≤ 1025 - count := by omega
        exact hnext
  | unhook =>
    rw [ProcessRun.pollBudget, ProcessRun.pollBudget, hpoint.1, hpoint.2]
    exact ⟨fun count callbackRc heq => absurd heq (ne_untilEof_of_deleted rfl _ _), Nat.zero_le _⟩

/-- With a timeout the timer is called so many times at most, and then the callback is told the end: that is less
than 100 ms before the timeout, or at most 100 ms after it. The last reads have 1025 rounds at most. -/
theorem hookProcess_timeout (htimeout : 0 < timeout) (h : (processStart detached bufferFlush timeout).Run events)
    (hrun : events.foldlM ProcessRun.step (processStart detached bufferFlush timeout) = some s) :
    (events.countP ProcessEvent.isTimer : Int) ≤ (hookProcessTimer timeout).2 ∧
      ((events.countP ProcessEvent.isTimer : Int) = (hookProcessTimer timeout).2 → s.hook.point ≠ .wait) ∧
      events.countP ProcessEvent.isPoll ≤ 1025 ∧
      timeout - 100 < (hookProcessTimer timeout).1 * (hookProcessTimer timeout).2 ∧
      (hookProcessTimer timeout).1 * (hookProcessTimer timeout).2 ≤ timeout + 100 := by
  have hstart := processStart_inv detached bufferFlush timeout
  have hmax : 0 < (hookProcessTimer timeout).2 ∧
      timeout - 100 < (hookProcessTimer timeout).1 * (hookProcessTimer timeout).2 ∧
      (hookProcessTimer timeout).1 * (hookProcessTimer timeout).2 ≤ timeout + 100 := by
    rw [hookProcessTimer, if_pos htimeout]
    split
    · dsimp only
      omega
    · dsimp only
      split <;> omega
  obtain ⟨hinv, hpos⟩ : s.Inv ∧ (s.hook.point = .wait → 0 < s.hook.remainingCalls) := by
    refine alongM_invariant (P := ProcessEvent.Legal)
      (I := fun s => s.Inv ∧ (s.hook.point = .wait → 0 < s.hook.remainingCalls)) (fun s₁ event s₂ hI hP hs => ?_)
      ⟨hstart, fun _ => hmax.1⟩ h (List.append_nil _).symm hrun
    exact ⟨hI.1.next hP hs, (hI.1.step_timer hI.2 hP hs).1⟩
  have htimers := alongM_countP_le (P := ProcessEvent.Legal) (p := ProcessEvent.isTimer) (b := ProcessRun.timerBudget)
    (I := fun s => s.Inv ∧ (s.hook.point = .wait → 0 < s.hook.remainingCalls)) (fun s₁ event s₂ hI hP hs => by
      obtain ⟨hpos, hle⟩ := hI.1.step_timer hI.2 hP hs
      exact ⟨⟨hI.1.next hP hs, hpos⟩, hle⟩) ⟨hstart, fun _ => hmax.1⟩ h hrun
  have hpolls := alongM_countP_le (P := ProcessEvent.Legal) (p := ProcessEvent.isPoll) (b := ProcessRun.pollBudget)
    (I := fun s => s.Inv ∧ ∀ count callbackRc, s.hook.point = .untilEof count callbackRc → count ≤ 1024)
    (fun s₁ event s₂ hI hP hs => by
      obtain ⟨hcount, hle⟩ := hI.1.step_poll hI.2 hP hs
      exact ⟨⟨hI.1.next hP hs, hcount⟩, hle⟩) ⟨hstart, fun count callbackRc heq => absurd heq ProcessPoint.noConfusion⟩ h
    hrun
  have hfull : (processStart detached bufferFlush timeout).timerBudget =
    (hookProcessTimer timeout).2.toNat := if_pos rfl
  have hrounds : (processStart detached bufferFlush timeout).pollBudget = 1025 := rfl
  rw [hfull] at htimers
  rw [hrounds] at hpolls
  refine ⟨by omega, fun heq hwait => ?_, by omega, hmax.2⟩
  have hbudget : s.timerBudget = s.hook.remainingCalls.toNat := if_pos hwait
  have hleft := hpos hwait
  omega

theorem hookProcess_timeout_hello :
    ∃ s, helloEvents.foldlM ProcessRun.step (processStart false none 1000) = some s ∧
      (helloEvents.countP ProcessEvent.isTimer : Int) ≤ (hookProcessTimer 1000).2 :=
  ⟨_, rfl, (hookProcess_timeout (by decide) helloRun rfl).1⟩

/-! ## Executed commands -/

/-- What a part of a stream, or NULL, does to the lines of a command. -/
def execOptRead (run : ExecRun) (out : ExecOut) (text : Option CStr) : ExecRun :=
  match text with
  | some text => execRead run (out, text)
  | none => run

def optText (text : Option CStr) : Str := (text.map Subtype.val).getD []

theorem execOptRead_right {run : ExecRun} (h : RunOk run) (other : ExecOut) (text : Option CStr) (out : ExecOut) :
    RunOk (execOptRead run other text) ∧
      (execOptRead run other text).execCmd.kept out =
        tail isLf (run.execCmd.kept out ++ if other = out then optText text else []) ∧
      displayedOf out (execOptRead run other text).displayed = displayedOf out run.displayed ++
        lines isLf (run.execCmd.kept out ++ if other = out then optText text else []) := by
  cases text with
  | some text => exact execRead_right h (other, text) out
  | none =>
    have hall := isLf_false (h.output out).notMem
    have hnone : (if other = out then optText none else []) = [] := by split <;> rfl
    rw [hnone, List.append_nil, tail_of_forall hall, lines_of_forall hall, List.append_nil]
    exact ⟨h, rfl, rfl⟩

/-- What is read of a stream in a call. -/
def ProcessCall.text (call : ProcessCall) (out : ExecOut) : Str :=
  match out with
  | .stdout => optText (call.out.map cString)
  | .stderr => optText (call.err.map cString)

/-- A call before the end of the command. -/
def execCallRead (run : ExecRun) (call : ProcessCall) : ExecRun :=
  execOptRead (execOptRead run .stdout (call.out.map cString)) .stderr (call.err.map cString)

theorem execCallRead_right {run : ExecRun} (h : RunOk run) (call : ProcessCall) (out : ExecOut) :
    RunOk (execCallRead run call) ∧
      (execCallRead run call).execCmd.kept out = tail isLf (run.execCmd.kept out ++ call.text out) ∧
      displayedOf out (execCallRead run call).displayed =
        displayedOf out run.displayed ++ lines isLf (run.execCmd.kept out ++ call.text out) := by
  obtain ⟨hok, hkept, hdisplayed⟩ := execOptRead_right h .stdout (call.out.map cString) out
  obtain ⟨hok', hkept', hdisplayed'⟩ := execOptRead_right hok .stderr (call.err.map cString) out
  have hall := isLf_false (h.output out).notMem
  have hall' := isLf_false (hok.output out).notMem
  refine ⟨hok', ?_, ?_⟩
  · rw [execCallRead, hkept']
    cases out with
    | stdout => rw [if_neg (by decide), List.append_nil, tail_of_forall hall', hkept, if_pos rfl, ProcessCall.text]
    | stderr => rw [if_pos rfl, hkept, if_neg (by decide), List.append_nil, tail_of_forall hall, ProcessCall.text]
  · rw [execCallRead, hdisplayed']
    cases out with
    | stdout =>
      rw [if_neg (by decide), List.append_nil, lines_of_forall hall', List.append_nil, hdisplayed, if_pos rfl,
        ProcessCall.text]
    | stderr =>
      rw [if_pos rfl, hkept, hdisplayed, if_neg (by decide), List.append_nil, tail_of_forall hall, lines_of_forall hall,
        List.append_nil, ProcessCall.text]

/-- The lines of a command whose process has ended, of the texts that its callback got. -/
theorem execProcess_displayed {cmd : ExecCmd} (hstart : RunOk ⟨cmd, []⟩) {out : ExecOut} (hempty : cmd.kept out = [])
    {calls : List ProcessCall} {last : ProcessCall} (hruns : ∀ call ∈ calls, call.Runs) (hends : last.Ends) :
    displayedOf out (execProcess cmd (calls ++ [last])).displayed =
      textLinesAll ((calls ++ [last]).flatMap fun call => call.text out) := by
  have hrunning : calls.foldl (fun run call =>
      execProcessCb run call.returnCode (call.out.map cString) (call.err.map cString)) ⟨cmd, []⟩ =
      calls.foldl execCallRead ⟨cmd, []⟩ := by
    refine List.foldl_ext _ _ _ fun run call hcall => ?_
    have hcode : ¬ (call.returnCode = -2 ∨ call.returnCode ≥ 0) := by
      rw [(hruns call hcall).1]
      decide
    exact if_neg hcode
  obtain ⟨hok, hkept, hdisplayed⟩ := foldl_reader execCallRead RunOk (fun call => call.text out)
    (fun run => run.execCmd.kept out) (fun run => displayedOf out run.displayed) (lines isLf)
    (fun _ => lines_of_forall) lines_append (calls ++ [last])
    (fun run hrun _ call _ => execCallRead_right hrun call out) _ hstart (isLf_false (hstart.output out).notMem)
  have hended : execProcess cmd (calls ++ [last]) =
      ⟨(execEndCommand ((calls ++ [last]).foldl execCallRead ⟨cmd, []⟩).execCmd).1,
        ((calls ++ [last]).foldl execCallRead ⟨cmd, []⟩).displayed ++
          (execEndCommand ((calls ++ [last]).foldl execCallRead ⟨cmd, []⟩).execCmd).2⟩ := by
    rw [execProcess, List.foldl_append, hrunning, List.foldl_append]
    exact if_pos hends
  rw [hended]
  dsimp only
  rw [displayedOf_append, hdisplayed, endCommand_displayed hok, hkept, textLinesAll, hempty, List.nil_append]
  rfl

/-- The texts of a stream are what the callback got of it, which has no `\0`. -/
theorem text_delivered {calls : List ProcessCall} {index : ProcessStream} (hzero : 0 ∉ delivered index calls) :
    (calls.flatMap fun call => call.text index.out) = delivered index calls := by
  refine List.flatMap_congr fun call hcall => ?_
  have hnot : 0 ∉ call.stream index := fun h => hzero (List.mem_flatMap.mpr ⟨call, hcall, h⟩)
  have htext (bytes : Option (List Byte)) (h : 0 ∉ bytes.getD []) : optText (bytes.map cString) = bytes.getD [] := by
    cases bytes with
    | none => rfl
    | some bytes => exact cString_of_not_mem h
  cases index with
  | stdout => exact htext call.out hnot
  | stderr => exact htext call.err hnot

/-- Each line that the child has written and that was read is displayed once, in order, wherever the reads, the
buffers and the calls of the callback have cut it. -/
theorem exec_process_lines (number : Int) (name : Option Str)
    (h : (processStart detached bufferFlush timeout).Run events)
    (hrun : events.foldlM ProcessRun.step (processStart detached bufferFlush timeout) = some s) (hended : s.Ended)
    (hzero : ∀ index, 0 ∉ s.written index) (index : ProcessStream) :
    displayedOf index.out (execProcess { execCmdNew number with name } s.hook.calls).displayed =
        textLinesAll (delivered index s.hook.calls) ∧
      delivered index s.hook.calls ++ s.pipe index = s.written index := by
  have hinv :=
    ProcessRun.Run.inv (processStart_inv detached bufferFlush timeout) ((List.append_nil events).symm ▸ h) hrun
  obtain ⟨hbuffer, hdropped⟩ := hinv.ended hended index
  have hwritten : delivered index s.hook.calls ++ s.pipe index = s.written index := by
    have hstream := hinv.stream index
    rw [hbuffer, hdropped, List.append_nil, List.append_nil] at hstream
    exact hstream
  have hnot : 0 ∉ delivered index s.hook.calls := fun h => hzero index (hwritten ▸ List.mem_append_left _ h)
  refine ⟨?_, hwritten⟩
  rw [← text_delivered hnot]
  obtain ⟨call, hcall, hend⟩ := hended
  have hcalls := hinv.calls
  generalize s.hook.calls = calls at hcalls hcall ⊢
  cases hcalls with
  | running hruns => exact absurd hend (hruns call hcall).not_ends
  | ended hruns hends _ =>
    have hstart : RunOk ⟨{ execCmdNew number with name }, []⟩ := runOk_start rfl (fun _ => rfl) fun _ => rfl
    exact execProcess_displayed hstart rfl hruns hends

theorem exec_process_lines_hello :
    ∃ s, helloEvents.foldlM ProcessRun.step (processStart false none 1000) = some s ∧
      displayedOf .stdout (execProcess { execCmdNew 0 with name := none } s.hook.calls).displayed =
        textLinesAll (delivered .stdout s.hook.calls) ∧
      delivered .stdout s.hook.calls ++ s.pipe .stdout = s.written .stdout := by
  refine ⟨_, rfl, exec_process_lines 0 none helloRun rfl ⟨_, List.mem_singleton_self _, .inr (by decide)⟩
    (fun index => ?_) .stdout⟩
  cases index <;> decide

end Wirc
