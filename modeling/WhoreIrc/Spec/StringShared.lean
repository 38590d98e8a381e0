import WhoreIrc.Impl.StringShared

/-!
# Counting references

A ledger holds the references that callers have and did not give back, each
with the pointer that they got and the string that they asked for. A caller may
give back what it has; `malloc` returns memory that is not in use.
-/

namespace Wirc

open Framework

abbrev SharedLedger := List (Addr × Str)

/-- The references to a string. -/
def references (ledger : SharedLedger) (string : Str) : Nat := ledger.countP fun r => r.2 = string

inductive SharedOp where
  | get (string : Str) (key : Addr)
  | free (string : Addr)

/-- The state and the ledger after a call. -/
def SharedOp.run (state : SharedStrings) (ledger : SharedLedger) : SharedOp → Option (SharedStrings × SharedLedger)
  | get string key => (stringSharedGet state string key).map fun r =>
      (r.1, match r.2 with
        | some ptr => (ptr, string) :: ledger
        | none => ledger)
  | free string => (stringSharedFree state string).map fun state => (state, ledger.eraseP fun r => r.1 = string)

/-- A call that may be made: there are fewer than 2³² references to the string,
and a pointer is given back only by one who has it. -/
def SharedOp.Legal (state : SharedStrings) (ledger : SharedLedger) : SharedOp → Prop
  | get string key => state.memory key = none ∧ references ledger string + 1 < 4294967296
  | free string => ∃ text, (string, text) ∈ ledger

/-- The states in which the calls of a program that follows the rules end. -/
inductive SharedRun : SharedStrings → SharedLedger → Prop
  | start : SharedRun ⟨fun _ => none, none⟩ []
  | step {state state' : SharedStrings} {ledger ledger' : SharedLedger} (op : SharedOp) :
      SharedRun state ledger → op.Legal state ledger → op.run state ledger = some (state', ledger') →
      SharedRun state' ledger'

/-- Whether a string is a key of the table: it is looked up with a key of its
own, at an address that is not in use. -/
def sharedHasKey (state : SharedStrings) (string : Str) (key : Addr) : Option Bool :=
  match state.hashtable with
  | some hashtable =>
    hashtableHasKey (sharedHashtable (Function.update state.memory key (some ⟨1, string⟩)) hashtable) key
  | none => some false

end Wirc
