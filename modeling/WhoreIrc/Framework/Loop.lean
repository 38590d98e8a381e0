import Mathlib.Logic.Relation

/-!
# Loops

A loop is a body that maps a state to the next state or to a result. It is run
with a number of rounds (`runLoop`), and `Ends body s r` says that some number
of rounds is enough. A loop ends when its states grow smaller (`ends_of_lt`),
and never ends from a set of states which no round leaves (`not_ends_of_closed`).
-/

namespace Wirc.Framework

/-- What one round of a loop gives. -/
inductive Round (S R : Type*)
  | next (s : S)
  | done (r : R)

variable {S R : Type*}

/-- At most `n` rounds. -/
def runLoop (body : S → Round S R) : Nat → S → Option R
  | 0, _ => none
  | n + 1, s =>
    match body s with
    | .next s' => runLoop body n s'
    | .done r => some r

/-- The loop ends with the result `r`. -/
def Ends (body : S → Round S R) (s : S) (r : R) : Prop := ∃ n, runLoop body n s = some r

/-- The loop started with `s` comes to `s'`. -/
def Reached (body : S → Round S R) : S → S → Prop := Relation.ReflTransGen fun s s' => body s = .next s'

variable {body : S → Round S R} {s s' : S} {r r' : R}

theorem runLoop_succ (n : Nat) :
    runLoop body (n + 1) s =
      match body s with
      | .next s' => runLoop body n s'
      | .done r => some r := rfl

theorem ends_done (h : body s = .done r) : Ends body s r' ↔ r = r' := by
  constructor
  · rintro ⟨n, hn⟩
    cases n with
    | zero => cases hn
    | succ n =>
      rw [runLoop_succ, h] at hn
      exact Option.some.inj hn
  · rintro rfl
    exact ⟨1, by rw [runLoop_succ, h]⟩

theorem ends_next (h : body s = .next s') : Ends body s r ↔ Ends body s' r := by
  constructor
  · rintro ⟨n, hn⟩
    cases n with
    | zero => cases hn
    | succ n =>
      rw [runLoop_succ, h] at hn
      exact ⟨n, hn⟩
  · rintro ⟨n, hn⟩
    exact ⟨n + 1, by rw [runLoop_succ, h]; exact hn⟩

/-- A loop has one result. -/
theorem Ends.unique (h : Ends body s r) (h' : Ends body s r') : r = r' := by
  obtain ⟨n, hn⟩ := h
  induction n generalizing s with
  | zero => cases hn
  | succ n ih =>
    rw [runLoop_succ] at hn
    cases hb : body s with
    | next s' =>
      rw [hb] at hn
      exact ih ((ends_next hb).mp h') hn
    | done r1 =>
      rw [hb] at hn
      exact (Option.some.inj hn).symm.trans ((ends_done hb).mp h')

/-- What holds when the loop ends, and before a round after which it holds. -/
theorem Ends.induction {P : S → Prop} (h : Ends body s r) (done : ∀ s, body s = .done r → P s)
    (next : ∀ s s', body s = .next s' → Ends body s' r → P s' → P s) : P s := by
  obtain ⟨n, hn⟩ := h
  induction n generalizing s with
  | zero => cases hn
  | succ n ih =>
    rw [runLoop_succ] at hn
    cases hb : body s with
    | next s' =>
      rw [hb] at hn
      exact next s s' hb ⟨n, hn⟩ (ih hn)
    | done r1 =>
      rw [hb] at hn
      cases hn
      exact done s hb

/-- A loop ends when each round makes the state smaller. -/
theorem ends_of_lt {I : S → Prop} (measure : S → Nat)
    (hlt : ∀ s s', I s → body s = .next s' → I s' ∧ measure s' < measure s) (s : S) (hs : I s) :
    ∃ r, Ends body s r := by
  cases hb : body s with
  | done r => exact ⟨r, (ends_done hb).mpr rfl⟩
  | next s' =>
    obtain ⟨hs', hm⟩ := hlt s s' hs hb
    obtain ⟨r, hr⟩ := ends_of_lt measure hlt s' hs'
    exact ⟨r, (ends_next hb).mpr hr⟩
termination_by measure s

/-- A loop does not end when no round leaves a set of states. -/
theorem not_ends_of_closed {I : S → Prop} (hI : ∀ s, I s → ∃ s', body s = .next s' ∧ I s') (hs : I s) :
    ¬ Ends body s r := by
  intro h
  refine h.induction (P := fun s => ¬ I s) (fun s hd hs => ?_) (fun s s' hn _ ih hs => ?_) hs
  · obtain ⟨s', hn, -⟩ := hI s hs
    rw [hd] at hn
    cases hn
  · obtain ⟨s1, hn1, hs1⟩ := hI s hs
    rw [hn] at hn1
    cases hn1
    exact ih hs1

/-- A loop ends when each round from a state that it reaches makes the state smaller. -/
theorem ends_of_reached_lt (measure : S → Nat)
    (hlt : ∀ t t', Reached body s t → body t = .next t' → measure t' < measure t) : ∃ r, Ends body s r :=
  ends_of_lt (I := Reached body s) measure (fun t t' ht hn => ⟨ht.tail hn, hlt t t' ht hn⟩) s .refl

end Wirc.Framework
