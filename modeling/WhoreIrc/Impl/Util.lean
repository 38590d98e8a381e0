import WhoreIrc.Impl.CString

/-!
# Dates and files (`core/wee-util.c`)

The functions on `struct timeval`, and `util_file_get_content`. The sums of
`util_timeval_add` are numbers of 64 bits. `Sys` is what the system calls on
descriptors return.
-/

namespace Wirc

/-! ## Dates -/

/-- `struct timeval`. -/
structure Timeval where
  sec : Int
  usec : Int
  deriving DecidableEq

/-- `util_timeval_cmp`. -/
def utilTimevalCmp : (tv1 tv2 : Option Timeval) → Int
  | none, none => 0
  | some _, none => 1
  | none, some _ => -1
  | some tv1, some tv2 =>
    if tv1.sec < tv2.sec then -1
    else if tv1.sec > tv2.sec then 1
    else if tv1.usec < tv2.usec then -1
    else if tv1.usec > tv2.usec then 1
    else 0

/-- `util_timeval_diff`: microseconds. -/
def utilTimevalDiff (tv1 tv2 : Timeval) : Int :=
  let diffSec := tv2.sec - tv1.sec
  let diffUsec := tv2.usec - tv1.usec
  if diffUsec < 0 then (diffUsec + 1000000) + (diffSec - 1) * 1000000 else diffUsec + diffSec * 1000000

/-- `util_timeval_add`. -/
def utilTimevalAdd (tv : Timeval) (interval : Int) : Timeval :=
  let sec := toLong (tv.sec + interval.tdiv 1000000)
  let usec := toLong (tv.usec + interval.tmod 1000000)
  if usec > 1000000 then { sec := toLong (sec + 1), usec := usec.tmod 1000000 }
  else { sec, usec }

/-! ## The content of a file -/

/-- What a system call returns: a number of bytes, or -1 with `errno`: `EAGAIN`
or `EWOULDBLOCK`, `EINTR`, or another error. -/
inductive Sys
  | ok (n : Nat)
  | again
  | intr
  | error
  deriving DecidableEq

/-- A file that is read: what is left of it, and the end-of-file indicator. -/
structure InputFile where
  rest : List Byte
  eof : Bool

/-- `fread (..., 1, size, f)`: the end of the file is met when there is less to read. -/
def freadBytes (size : Nat) (f : InputFile) : List Byte × InputFile :=
  (f.rest.take size, { rest := f.rest.drop size, eof := f.eof || f.rest.length < size })

/-- Why `util_file_get_content` returns NULL. -/
inductive FileError
  | fopen
  | realloc
  | fread
  deriving DecidableEq

/-- `SIZE_MAX`. -/
def sizeMax : Nat := 18446744073709551615

/-- `while (!feof (f))`: `buffer` is what was read. -/
def utilFileReadLoop (realloc : Nat → Bool) (buffer : List Byte) (f : InputFile) : Except FileError (List Byte) :=
  if f.eof then .ok buffer
  else if buffer.length > sizeMax - 1024 then .error .realloc
  else if !realloc (buffer.length + 1024) then .error .realloc
  else if _ : (freadBytes 1024 f).1.length = 0 then .error .fread
  else utilFileReadLoop realloc (buffer ++ (freadBytes 1024 f).1) (freadBytes 1024 f).2
termination_by f.rest.length
decreasing_by
  rename_i h
  rw [freadBytes, List.length_take] at h
  rw [freadBytes, List.length_drop]
  omega

/-- `util_file_get_content`; `realloc` says for which sizes there is memory. -/
def utilFileGetContent (realloc : Nat → Bool) (file : Option (List Byte)) : Except FileError (List Byte) :=
  match file with
  | none => .error .fopen
  | some content =>
    match utilFileReadLoop realloc [] { rest := content, eof := false } with
    | .error error => .error error
    | .ok buffer =>
      if buffer.length > sizeMax - 1 then .error .realloc
      else if !realloc (buffer.length + 1) then .error .realloc
      else .ok (buffer ++ [0])

end Wirc
