import Mathlib.Data.List.Chain
import Mathlib.Data.List.Infix

/-!
# Walks

A walk goes from one state to the next by a relation; it is a chain of states.
* `walk_append`: two walks, where the second one begins at the end of the first;
* `walk_comparable`: where the next state is unique, one of two walks from a state
  is the beginning of the other;
* `walk_nodup`: so a walk to a state that it does not visit before visits each
  state once;
* `WalkTo`: the walk by a function up to a state. There is at most one
  (`WalkTo.unique`), it stays out of the sets that a walk does not leave
  (`WalkTo.not_closed`), and `WalkTo.range` goes through an interval of numbers.
-/

namespace Wirc.Framework

variable {S : Type*} {R : S → S → Prop} {s u : S} {l l' : List S}

theorem walk_append (h : (l ++ [u]).IsChain R) (h' : l'.IsChain R) (hu : l'.head? = some u) : (l ++ l').IsChain R := by
  obtain ⟨l', rfl⟩ := List.head?_eq_some_iff.mp hu
  exact List.isChain_split.mpr ⟨h, h'⟩

/-- Two walks from one state. -/
theorem walk_comparable (hR : ∀ a b c, R a b → R a c → b = c) (h : (s :: l).IsChain R) (h' : (s :: l').IsChain R) :
    l <+: l' ∨ l' <+: l := by
  induction l generalizing s l' with
  | nil => exact .inl List.nil_prefix
  | cons a l ih =>
    cases l' with
    | nil => exact .inr List.nil_prefix
    | cons b l' =>
      obtain ⟨hab, hl⟩ := List.isChain_cons_cons.mp h
      obtain ⟨hab', hl'⟩ := List.isChain_cons_cons.mp h'
      obtain rfl := hR _ _ _ hab hab'
      simpa only [List.prefix_cons_inj] using ih hl hl'

/-- A walk that ends at a state which is not visited before. -/
theorem walk_nodup (hR : ∀ a b c, R a b → R a c → b = c) (h : (l ++ [u]).IsChain R) (hu : u ∉ l) : l.Nodup := by
  induction l with
  | nil => exact List.nodup_nil
  | cons s l ih =>
    have htail : (l ++ [u]).IsChain R := (List.isChain_cons.mp h).2
    rw [List.mem_cons, not_or] at hu
    refine List.nodup_cons.mpr ⟨fun hmem => ?_, ih htail hu.2⟩
    obtain ⟨before, after, rfl⟩ := List.append_of_mem hmem
    rw [List.append_assoc] at htail
    have hagain : (s :: (after ++ [u])).IsChain R := htail.right_of_append
    -- the shorter walk is the beginning of the longer one, and its end is visited
    have hbegin : after ++ [u] <+: before ++ s :: after := by
      obtain hlong | hshort := walk_comparable hR h hagain
      · have hlength := hlong.length_le
        simp only [List.append_eq, List.length_append, List.length_cons, List.length_nil] at hlength
        omega
      · refine List.prefix_of_prefix_length_le hshort (List.prefix_append ..) ?_
        simp only [List.length_append, List.length_cons, List.length_nil]
        omega
    exact hu.2 (hbegin.subset (List.mem_append_right _ List.mem_cons_self))

/-! ## Up to a state -/

/-- The states that are visited from one state by `next`, up to `stop`. -/
inductive WalkTo (next : S → S) (stop : S) : S → List S → Prop
  | stop : WalkTo next stop stop []
  | step {s : S} {l : List S} : s ≠ stop → WalkTo next stop (next s) l → WalkTo next stop s (s :: l)

namespace WalkTo

variable {next : S → S} {stop : S}

theorem unique (h : WalkTo next stop s l) (h' : WalkTo next stop s l') : l = l' := by
  induction h generalizing l' with
  | stop =>
    cases h' with
    | stop => rfl
    | step hne => exact absurd rfl hne
  | step hne _ ih =>
    cases h' with
    | stop => exact absurd rfl hne
    | step _ h' => rw [ih h']

/-- A set that is not left, and where the walk does not stop. -/
theorem not_closed {P : S → Prop} (hP : ∀ s, P s → P (next s)) (hstop : ¬ P stop) (hs : P s) : ¬ WalkTo next stop s l := by
  intro h
  induction h with
  | stop => exact hstop hs
  | step _ _ ih => exact ih (hP _ hs)

/-- The walk goes on from each state that it visits. -/
theorem of_mem (h : WalkTo next stop s l) {u : S} (hu : u ∈ l) : ∃ l', WalkTo next stop (next u) l' := by
  induction h with
  | stop => exact absurd hu List.not_mem_nil
  | step _ h ih =>
    rcases List.mem_cons.mp hu with rfl | hu
    · exact ⟨_, h⟩
    · exact ih hu

/-- A walk from one number to the next begins with an interval. -/
theorem range {next : Nat → Nat} {stop a b : Nat} {l : List Nat} (hab : a ≤ b)
    (hnext : ∀ i, a ≤ i → i < b → next i = i + 1) (hstop : stop < a ∨ b ≤ stop) (h : WalkTo next stop b l) :
    WalkTo next stop a (List.range' a (b - a) ++ l) := by
  induction hn : b - a generalizing a with
  | zero =>
    obtain rfl : a = b := by omega
    exact h
  | succ n ih =>
    refine step (by omega) ?_
    rw [hnext a le_rfl (by omega)]
    exact ih (by omega) (fun i hi => hnext i (by omega)) (by omega) (by omega)

end WalkTo

end Wirc.Framework
