import Mathlib.Data.List.Basic

/-!
# Runs of operations

A run applies operations one after another to a state. `Along` states
something of every step of a run, of the state before it and the operation:
* `along_iff`: at every step, from its place in the run;
* `foldl_invariant`: what each step keeps holds at the end;
* `along_congr`: two conditions on steps that agree in all states that an
  invariant allows agree on runs;
* `along_states`: an invariant that a step keeps under a condition holds in all
  states of a run if and only if its steps meet the condition;
* `foldlM_kept`: what each step that does not fail keeps;
* `alongM_countP_le`: how often a run has steps of a kind, if each takes one from a budget;
* `alongM_iff`, `alongM_congr`, `alongM_states`, `alongM_states_iff`: the same for steps that may fail, where
  `alongM_states` is one direction only, and `alongM_invariant` is about the states before one fails.
-/

namespace Wirc.Framework

variable {S O : Type*} (step : S → O → S)

/-- `P` holds at each step of the run of `ops` from `s`. -/
def Along (P : S → O → Prop) : S → List O → Prop
  | _, [] => True
  | s, op :: ops => P s op ∧ Along P (step s op) ops

variable {step} {P Q : S → O → Prop} {I : S → Prop}

theorem along_iff {s : S} {ops : List O} :
    Along step P s ops ↔ ∀ before op after, ops = before ++ op :: after → P (before.foldl step s) op := by
  induction ops generalizing s with
  | nil => simp [Along]
  | cons op ops ih =>
    rw [Along, ih]
    constructor
    · rintro ⟨h, hrest⟩ before op' after heq
      cases before with
      | nil =>
        obtain ⟨rfl, rfl⟩ := List.cons.inj heq
        exact h
      | cons op₁ before =>
        obtain ⟨rfl, rfl⟩ := List.cons.inj heq
        exact hrest before op' after rfl
    · intro h
      exact ⟨h [] op ops rfl, fun before op' after heq => h (op :: before) op' after (by rw [heq]; rfl)⟩

/-- What each step keeps holds at the end. -/
theorem foldl_invariant (hstep : ∀ s op, I s → I (step s op)) {s : S} (hs : I s) (ops : List O) :
    I (ops.foldl step s) := by
  induction ops generalizing s with
  | nil => exact hs
  | cons op ops ih => exact ih (hstep s op hs)

theorem along_congr (hstep : ∀ s op, I s → P s op → I (step s op)) (h : ∀ s op, I s → (P s op ↔ Q s op)) {s : S}
    (hs : I s) (ops : List O) : Along step P s ops ↔ Along step Q s ops := by
  induction ops generalizing s with
  | nil => exact Iff.rfl
  | cons op ops ih =>
    rw [Along, Along, ← h s op hs]
    exact and_congr_right fun hP => ih (hstep s op hs hP)

/-- The invariant holds in all states of a run if and only if its steps meet the
condition under which a step keeps it. -/
theorem along_states (hstep : ∀ s op, I s → (P s op ↔ I (step s op))) {s : S} (hs : I s) (ops : List O) :
    (∀ before after, ops = before ++ after → I (before.foldl step s)) ↔ Along step P s ops := by
  induction ops generalizing s with
  | nil =>
    refine ⟨fun _ => trivial, fun _ before after heq => ?_⟩
    rw [(List.append_eq_nil_iff.mp heq.symm).1]
    exact hs
  | cons op ops ih =>
    rw [Along]
    constructor
    · intro h
      have hnext : I (step s op) := h [op] ops rfl
      refine ⟨(hstep s op hs).mpr hnext, (ih hnext).mp fun before after heq => ?_⟩
      exact h (op :: before) after (by rw [heq, List.cons_append])
    · rintro ⟨hP, hrest⟩ before after heq
      cases before with
      | nil => exact hs
      | cons op' before =>
        obtain ⟨rfl, rfl⟩ := List.cons.inj heq
        exact (ih ((hstep s op hs).mp hP)).mpr hrest before after rfl

/-- `P` holds at each step of a run whose steps may fail, as long as none does. -/
def AlongM (step : S → O → Option S) (P : S → O → Prop) : S → List O → Prop
  | _, [] => True
  | s, op :: ops => P s op ∧ ∀ s', step s op = some s' → AlongM step P s' ops

theorem AlongM.cons {step : S → O → Option S} {s s' : S} {op : O} {ops : List O} (hP : P s op)
    (hs : step s op = some s') (h : AlongM step P s' ops) : AlongM step P s (op :: ops) := by
  refine ⟨hP, fun s₁ hs₁ => ?_⟩
  rw [hs] at hs₁
  cases hs₁
  exact h

theorem alongM_iff {step : S → O → Option S} {s : S} {ops : List O} :
    AlongM step P s ops ↔
      ∀ before op after s', ops = before ++ op :: after → before.foldlM step s = some s' → P s' op := by
  induction ops generalizing s with
  | nil => simp [AlongM]
  | cons op ops ih =>
    rw [AlongM]
    constructor
    · rintro ⟨h, hrest⟩ before op' after s' heq hs'
      cases before with
      | nil =>
        obtain ⟨rfl, rfl⟩ := List.cons.inj heq
        cases hs'
        exact h
      | cons op₁ before =>
        obtain ⟨rfl, rfl⟩ := List.cons.inj heq
        rw [List.foldlM_cons, Option.bind_eq_bind, Option.bind_eq_some_iff] at hs'
        obtain ⟨s₁, hs₁, hs'⟩ := hs'
        exact ih.mp (hrest s₁ hs₁) before op' after s' rfl hs'
    · intro h
      refine ⟨h [] op ops s rfl rfl, fun s₁ hs₁ => ih.mpr fun before op' after s' heq hs' => ?_⟩
      refine h (op :: before) op' after s' (by rw [heq]; rfl) ?_
      rw [List.foldlM_cons, hs₁]
      exact hs'

theorem alongM_congr {step : S → O → Option S} (hstep : ∀ s op s', I s → P s op → step s op = some s' → I s')
    (h : ∀ s op, I s → (P s op ↔ Q s op)) {s : S} (hs : I s) (ops : List O) :
    AlongM step P s ops ↔ AlongM step Q s ops := by
  induction ops generalizing s with
  | nil => exact Iff.rfl
  | cons op ops ih =>
    rw [AlongM, AlongM, ← h s op hs]
    refine and_congr_right fun hP => forall_congr' fun s' => imp_congr_right fun hs' => ?_
    exact ih (hstep s op s' hs hP hs')

/-- The rest of a run. -/
theorem AlongM.drop {step : S → O → Option S} {s s' : S} {before after : List O}
    (h : AlongM step P s (before ++ after)) (hs' : before.foldlM step s = some s') : AlongM step P s' after := by
  refine alongM_iff.mpr fun before' op after' s₁ heq hs₁ => ?_
  refine alongM_iff.mp h (before ++ before') op after' s₁ (by rw [heq, List.append_assoc]) ?_
  rw [List.foldlM_append, hs']
  exact hs₁

theorem AlongM.and {step : S → O → Option S} {s : S} {ops : List O} (hP : AlongM step P s ops)
    (hQ : AlongM step Q s ops) : AlongM step (fun s op => P s op ∧ Q s op) s ops :=
  alongM_iff.mpr fun before op after s' heq hs' =>
    ⟨alongM_iff.mp hP before op after s' heq hs', alongM_iff.mp hQ before op after s' heq hs'⟩

/-- Steps that meet the condition do not fail and keep the invariant, and so do all states of a run. -/
theorem alongM_states {step : S → O → Option S}
    (hstep : ∀ s op, I s → P s op → ∃ s', step s op = some s' ∧ I s') {s : S} (hs : I s) {ops : List O}
    (h : AlongM step P s ops) {before after : List O} (heq : ops = before ++ after) :
    ∃ s', before.foldlM step s = some s' ∧ I s' := by
  induction before generalizing s ops with
  | nil => exact ⟨s, rfl, hs⟩
  | cons op before ih =>
    subst heq
    obtain ⟨s', hs', hI⟩ := hstep s op hs h.1
    rw [List.foldlM_cons, hs']
    exact ih hI (h.2 s' hs') rfl

/-- No state of a run is missing, and all keep the invariant, if and only if its steps meet the condition. -/
theorem alongM_states_iff {step : S → O → Option S}
    (hstep : ∀ s op, I s → (P s op ↔ ∃ s', step s op = some s' ∧ I s')) {s : S} (hs : I s) (ops : List O) :
    (∀ before after, ops = before ++ after → ∃ s', before.foldlM step s = some s' ∧ I s') ↔ AlongM step P s ops := by
  refine ⟨fun h => ?_, fun h before after heq => alongM_states (fun s op hI => (hstep s op hI).mp) hs h heq⟩
  induction ops generalizing s with
  | nil => trivial
  | cons op ops ih =>
    obtain ⟨s', hs', hI⟩ := h [op] ops rfl
    rw [List.foldlM_cons, Option.bind_eq_bind, Option.bind_eq_some_iff] at hs'
    obtain ⟨s₁, hs₁, hs'⟩ := hs'
    cases hs'
    refine ⟨(hstep s op hs).mpr ⟨_, hs₁, hI⟩, fun s₂ hs₂ => ?_⟩
    rw [hs₁] at hs₂
    cases hs₂
    refine ih hI fun before after heq => ?_
    obtain ⟨s₃, hs₃, hI₃⟩ := h (op :: before) after (by rw [heq, List.cons_append])
    rw [List.foldlM_cons, hs₁] at hs₃
    exact ⟨s₃, hs₃, hI₃⟩

/-- The states of a run whose steps may fail, up to where one does. -/
theorem alongM_invariant {step : S → O → Option S} (hstep : ∀ s op s', I s → P s op → step s op = some s' → I s')
    {s s' : S} (hs : I s) {ops before after : List O} (h : AlongM step P s ops) (heq : ops = before ++ after)
    (hs' : before.foldlM step s = some s') : I s' := by
  induction before generalizing s ops with
  | nil =>
    cases hs'
    exact hs
  | cons op before ih =>
    subst heq
    rw [List.foldlM_cons, Option.bind_eq_bind, Option.bind_eq_some_iff] at hs'
    obtain ⟨s₁, hs₁, hs'⟩ := hs'
    exact ih (hstep s op s₁ hs h.1 hs₁) (h.2 s₁ hs₁) rfl hs'

/-- Steps that may fail do not, and keep the invariant. -/
theorem foldlM_invariant {step : S → O → Option S} (hstep : ∀ s op, I s → ∃ s', step s op = some s' ∧ I s') {s : S}
    (hs : I s) (ops : List O) : ∃ s', ops.foldlM step s = some s' ∧ I s' := by
  induction ops generalizing s with
  | nil => exact ⟨s, rfl, hs⟩
  | cons op ops ih =>
    obtain ⟨s', hs', hI⟩ := hstep s op hs
    rw [List.foldlM_cons, hs']
    exact ih hI

/-- What each step that does not fail keeps holds at the end. -/
theorem foldlM_kept {step : S → O → Option S} (hstep : ∀ s op s', I s → step s op = some s' → I s') {s s' : S}
    (hs : I s) {ops : List O} (h : ops.foldlM step s = some s') : I s' := by
  induction ops generalizing s with
  | nil =>
    cases h
    exact hs
  | cons op ops ih =>
    rw [List.foldlM_cons, Option.bind_eq_bind, Option.bind_eq_some_iff] at h
    obtain ⟨s₁, hs₁, h⟩ := h
    exact ih (hstep s op s₁ hs hs₁) h

/-- Each step of a kind takes one from a budget that no step fills. -/
theorem alongM_countP_le {step : S → O → Option S} {p : O → Bool} {b : S → Nat}
    (hstep : ∀ s op s', I s → P s op → step s op = some s' → I s' ∧ b s' + (if p op then 1 else 0) ≤ b s)
    {s s' : S} (hs : I s) {ops : List O} (h : AlongM step P s ops) (hs' : ops.foldlM step s = some s') :
    b s' + ops.countP p ≤ b s := by
  induction ops generalizing s with
  | nil =>
    cases hs'
    exact Nat.le_refl _
  | cons op ops ih =>
    rw [List.foldlM_cons, Option.bind_eq_bind, Option.bind_eq_some_iff] at hs'
    obtain ⟨s₁, hs₁, hs'⟩ := hs'
    obtain ⟨hI, hle⟩ := hstep s op s₁ hs h.1 hs₁
    have hrest := ih hI (h.2 s₁ hs₁) hs'
    rw [List.countP_cons]
    omega

/-- A list is mapped if each thing in it is. -/
theorem mapM_some {α β : Type} {f : α → Option β} {g : α → β} {l : List α} (h : ∀ x ∈ l, f x = some (g x)) :
    l.mapM f = some (l.map g) := by
  induction l with
  | nil => rfl
  | cons x l ih =>
    rw [List.mapM_cons, h x (List.mem_cons_self ..), ih fun y hy => h y (List.mem_cons_of_mem x hy)]
    rfl

theorem mapM_cons_some {α β : Type} {f : α → Option β} {x : α} {l : List α} {r : List β} :
    (x :: l).mapM f = some r ↔ ∃ y r', f x = some y ∧ l.mapM f = some r' ∧ r = y :: r' := by
  rw [List.mapM_cons]
  constructor
  · intro h
    obtain ⟨y, hy, hrest⟩ := Option.bind_eq_some_iff.mp h
    obtain ⟨r', hr', hcons⟩ := Option.bind_eq_some_iff.mp hrest
    cases hcons
    exact ⟨y, r', hy, hr', rfl⟩
  · rintro ⟨y, r', hy, hr', rfl⟩
    rw [hy, hr']
    rfl

end Wirc.Framework
