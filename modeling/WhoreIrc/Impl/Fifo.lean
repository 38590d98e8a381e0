import WhoreIrc.Impl.CString

/-!
# Text received in the FIFO pipe (`plugins/fifo/fifo.c`)

The calls of `fifo_exec` are kept in order; memory can be allocated. `fifo_unterminated`
is NULL (`none`) when nothing is kept.
-/

namespace Wirc

/-- `fifo_unterminated`, and the texts that `fifo_exec` was called with. -/
structure Fifo where
  fifoUnterminated : Option Str
  executed : List Str

theorem strstr_length {s word p : Str} (h : strstr s word = some p) : p.length ≤ s.length := by
  induction s with
  | nil =>
    rw [strstr] at h
    split at h
    · cases h
      exact Nat.le_refl _
    · cases h
  | cons b s ih =>
    rw [strstr] at h
    split at h
    · cases h
      exact Nat.le_refl _
    · exact (ih h).trans (Nat.le_succ _)

theorem strstr_drop_lt {s word p : Str} (h : strstr s word = some p) (hs : s ≠ []) {n : Nat} (hn : 0 < n) :
    (p.drop n).length < s.length := by
  have := strstr_length h
  have := List.length_pos_of_ne_nil hs
  rw [List.length_drop]
  omega

/-- The loop of `fifo_fd_cb`: the texts that are executed, and what is kept. -/
def fifoReadLoop (ptrBuf : Str) : List Str × Option Str :=
  if _hnil : ptrBuf = [] then ([], none)
  else
    match _h : strstr ptrBuf (lit "\r\n") with
    | some pos =>
      let next := fifoReadLoop (pos.drop 2)
      (strndup ptrBuf (off ptrBuf pos) :: next.1, next.2)
    | none =>
      match _h' : strstr ptrBuf (lit "\n") with
      | some pos =>
        let next := fifoReadLoop (pos.drop 1)
        (strndup ptrBuf (off ptrBuf pos) :: next.1, next.2)
      | none => ([], some ptrBuf)
termination_by ptrBuf.length
decreasing_by
  · exact strstr_drop_lt _h _hnil Nat.two_pos
  · exact strstr_drop_lt _h' _hnil Nat.one_pos

/-- `fifo_fd_cb`, when bytes are read. -/
def fifoFdCb (fifo : Fifo) (buffer : CStr) : Fifo :=
  let read := fifoReadLoop (fifo.fifoUnterminated.getD [] ++ buffer.val)
  { fifoUnterminated := read.2, executed := fifo.executed ++ read.1 }

/-- The pipe before anything is read. -/
def fifoStart : Fifo := ⟨none, []⟩

end Wirc
