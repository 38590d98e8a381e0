import Mathlib.Algebra.Ring.Int.Defs
import WhoreIrc.Impl.Util

/-!
# Instants, and files that are read

The instant of a date is a number of microseconds.
-/

namespace Wirc

/-- A date with seconds of 64 bits and microseconds that are less than a second. -/
structure Timeval.Normalised (tv : Timeval) : Prop where
  sec : longMin ≤ tv.sec ∧ tv.sec ≤ longMax
  usec : 0 ≤ tv.usec ∧ tv.usec < 1000000

/-- The instant of a date. -/
def Timeval.instant (tv : Timeval) : Int := tv.sec * 1000000 + tv.usec

/-- The date after intervals. -/
def Timeval.after (tv : Timeval) (intervals : List Int) : Timeval := intervals.foldl utilTimevalAdd tv

/-- The dates after intervals are normalised, are the instants after the intervals, and are
compared as these. -/
structure TimevalsRight (tv1 tv2 : Timeval) (intervals1 intervals2 : List Int) : Prop where
  normalised1 : (tv1.after intervals1).Normalised
  normalised2 : (tv2.after intervals2).Normalised
  instant1 : (tv1.after intervals1).instant = tv1.instant + intervals1.sum
  instant2 : (tv2.after intervals2).instant = tv2.instant + intervals2.sum
  cmp : utilTimevalCmp (some (tv1.after intervals1)) (some (tv2.after intervals2)) =
    (tv1.instant + intervals1.sum - (tv2.instant + intervals2.sum)).sign

/-- The seconds after the intervals have 64 bits, and the end is not on a second, unless all
intervals are. -/
structure TimevalFits (tv : Timeval) (intervals : List Int) : Prop where
  range : tv.instant + intervals.sum < (longMax + 1) * 1000000
  second : (∀ interval ∈ intervals, interval % 1000000 = 0) ∨ (tv.instant + intervals.sum) % 1000000 ≠ 0

/-- The content of a file is returned with a NUL, unless memory is missing. -/
def FileRight (content : List Byte) : Prop :=
  ∀ realloc, utilFileGetContent realloc (some content) = .ok (content ++ [0]) ∨
    utilFileGetContent realloc (some content) = .error .realloc

/-! ## System calls -/

/-- A result that is not an error satisfies `P`. -/
def Sys.Gives (P : Nat → Prop) : Sys → Prop
  | .ok n => P n
  | _ => True

instance (P : Nat → Prop) [DecidablePred P] (r : Sys) : Decidable (r.Gives P) := by
  cases r <;> unfold Sys.Gives <;> infer_instance

end Wirc
