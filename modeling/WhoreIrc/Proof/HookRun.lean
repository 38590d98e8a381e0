import Mathlib.Data.List.Forall2
import WhoreIrc.Proof.Hook

/-!
# Hooks under re-entrancy: all runs

`HookInv` is what holds in all runs. The list of a send that runs is cut
(`SendAt`) into the hooks that its loop has passed and those that are upcoming,
from the saved pointer on: hooks are never freed while it runs, so that the
pointer stays the first of the upcoming ones (`SendOk.created`), and a round
moves one hook over the cut (`SendAt.test`).
-/

namespace Wirc

open Framework

theorem forall₂_exists {α β : Type*} {R : α → β → Prop} {l : List α} {l' : List β} (h : List.Forall₂ R l l') {x : α}
    (hx : x ∈ l) : ∃ y, R x y := by
  induction h with
  | nil => cases hx
  | cons hr _ ih =>
    rcases List.mem_cons.mp hx with rfl | hx
    · exact ⟨_, hr⟩
    · exact ih hx

theorem forall₂_zipWith {α β : Type*} {R S : α → β → Prop} {l : List α} {l' : List β} (h : List.Forall₂ R l l')
    {f : α → β → β} (hf : ∀ x ∈ l, ∀ y, R x y → S x (f x y)) : List.Forall₂ S l (List.zipWith f l l') := by
  induction h with
  | nil => exact .nil
  | cons hr _ ih =>
    exact .cons (hf _ (List.mem_cons_self ..) _ hr) (ih fun x hx => hf x (List.mem_cons_of_mem _ hx))

/-! ## A send on the stack -/

/-- The loop of a send has passed `passed`, and `upcoming` follow. -/
structure SendAt (passed upcoming : List Addr) (send : SignalSend) (record : SendRecord) : Prop where
  saved : send.point ≠ .ended → send.point.saved = upcoming.head?
  current : ∀ p ∈ send.point.current, p ∈ passed
  tested : (record.tested.map Prod.fst).Sublist passed
  missed : ∀ a ∈ passed, a ∈ record.tested.map Prod.fst ↔ a ∉ record.missed
  missedPassed : ∀ a ∈ record.missed, a ∈ passed
  present : ∀ a ∈ record.present, a ∈ passed ++ upcoming ∧ a ∉ record.missed
  called : record.called = (record.tested.filter (SendRecord.shouldCall send)).map Prod.fst

/-- A send with the list `l`. -/
def SendOk (l : List Addr) (send : SignalSend) (record : SendRecord) : Prop :=
  ∃ passed upcoming, l = passed ++ upcoming ∧ SendAt passed upcoming send record

section

variable {state : Hooks} {b : HookType → List (Addr × Hook)} {passed upcoming pre post : List Addr}
  {send : SignalSend} {record : SendRecord} {a : Addr}

theorem HookLists.addrs_from (h : HookLists state b) (hb : addrs (b .signal) = passed ++ upcoming) :
    (Wirc.hooksFrom state (hookRounds state .signal) upcoming.head?).map Prod.fst = upcoming := by
  obtain ⟨xs, ys, hxy, rfl, rfl⟩ := List.map_eq_append_iff.mp hb
  have hfirst : (List.map Prod.fst ys).head? = firstPtr ys none := firstPtr_none.symm
  rw [hfirst, h.hooksFrom hxy]

/-- The new hook is behind the saved pointer. -/
theorem SendRecord.created_upcoming (h : HookLists state b) (hb : addrs (b .signal) = passed ++ upcoming)
    (hsaved : send.point.saved = upcoming.head?) (ha : a ∈ upcoming) :
    SendRecord.created state a send record = record := by
  rw [SendRecord.created, if_neg]
  rw [hsaved, h.addrs_from hb]
  exact fun hnot => hnot.2 ha

theorem SendRecord.created_passed (h : HookLists state b) (hb : addrs (b .signal) = passed ++ upcoming)
    (hsaved : send.point.saved = upcoming.head?) (ha : a ∈ passed) (hn : a ∉ upcoming) :
    SendRecord.created state a send record = { record with missed := a :: record.missed } := by
  rw [SendRecord.created, if_pos]
  rw [hsaved, h.addrs_from hb, h.hookList]
  have hmem : a ∈ addrs (b .signal) := by
    rw [hb]
    exact List.mem_append_left _ ha
  exact ⟨hmem, hn⟩

theorem SendRecord.created_elsewhere (h : HookLists state b) (ha : a ∉ addrs (b .signal)) :
    SendRecord.created state a send record = record := by
  rw [SendRecord.created, if_neg]
  rw [h.hookList]
  exact fun hin => ha hin.1

/-- A new hook that is passed was missed. -/
theorem SendAt.missNew (h : SendAt passed upcoming send record) {passed' : List Addr}
    (hmem : ∀ c, c ∈ passed' ↔ c = a ∨ c ∈ passed) (hsub : passed.Sublist passed') (ha : a ∉ passed ++ upcoming) :
    SendAt passed' upcoming send { record with missed := a :: record.missed } := by
  rw [List.mem_append, not_or] at ha
  refine ⟨h.saved, fun p hp => (hmem p).mpr (.inr (h.current p hp)), h.tested.trans hsub, fun c hc => ?_,
    fun c hc => ?_, fun c hc => ?_, h.called⟩
  · rcases (hmem c).mp hc with rfl | hc
    · refine iff_of_false (fun ht => ha.1 (h.tested.subset ht)) ?_
      simp
    · rw [h.missed c hc, List.mem_cons, not_or]
      exact (and_iff_right (ne_of_mem_of_not_mem hc ha.1)).symm
  · rcases List.mem_cons.mp hc with rfl | hc
    · exact (hmem c).mpr (.inl rfl)
    · exact (hmem c).mpr (.inr (h.missedPassed c hc))
  · obtain ⟨hin, hnot⟩ := h.present c hc
    rw [List.mem_append] at hin
    refine ⟨List.mem_append.mpr (hin.imp_left fun hp => (hmem c).mpr (.inr hp)), ?_⟩
    rw [List.mem_cons, not_or]
    refine ⟨?_, hnot⟩
    rintro rfl
    exact hin.elim ha.1 ha.2

/-- A hook is added to the list of a send. -/
theorem SendOk.created (h : SendOk (pre ++ post) send record) (hstate : HookLists state b)
    (hb : addrs (b .signal) = pre ++ a :: post) (ha : a ∉ pre ++ post) (hpoint : send.point ≠ .ended) :
    SendOk (pre ++ a :: post) send (SendRecord.created state a send record) := by
  obtain ⟨passed, upcoming, hl, hat⟩ := h
  have hsaved := hat.saved hpoint
  rw [hl] at ha
  rcases List.append_eq_append_iff.mp hl with ⟨c, rfl, rfl⟩ | ⟨c, rfl, rfl⟩
  · -- the new hook is passed
    have hb' : addrs (b .signal) = (pre ++ a :: c) ++ upcoming := by
      rw [hb, List.append_assoc]
      rfl
    rw [SendRecord.created_passed hstate hb' hsaved (by simp) fun hu => ha (List.mem_append_right _ hu)]
    refine ⟨pre ++ a :: c, upcoming, by rw [List.append_assoc]; rfl, hat.missNew (fun x => ?_) ?_ ha⟩
    · simp only [List.mem_append, List.mem_cons]
      tauto
    · exact List.Sublist.append_left (List.sublist_cons_self ..) pre
  · cases c with
    | nil =>
      -- it is just before the saved pointer
      rw [List.append_nil] at hb hl
      have hb' : addrs (b .signal) = (passed ++ [a]) ++ post := by
        rw [hb, List.append_assoc]
        rfl
      rw [SendRecord.created_passed hstate hb' hsaved (by simp) fun hu => ha (List.mem_append_right _ hu)]
      refine ⟨passed ++ [a], post, by simp, hat.missNew (fun x => ?_) (List.sublist_append_left ..) ha⟩
      simp only [List.mem_append, List.mem_singleton, or_comm]
    | cons u c =>
      -- it is upcoming
      have hb' : addrs (b .signal) = passed ++ (u :: c ++ a :: post) := by
        rw [hb, List.append_assoc]
      rw [SendRecord.created_upcoming hstate hb' hsaved (by simp)]
      refine ⟨passed, u :: c ++ a :: post, by rw [List.append_assoc], hat.saved, hat.current, hat.tested, hat.missed,
        hat.missedPassed, fun x hx => ?_, hat.called⟩
      obtain ⟨hin, hnot⟩ := hat.present x hx
      refine ⟨?_, hnot⟩
      simp only [List.mem_append, List.mem_cons] at hin ⊢
      tauto

/-- A round of the loop tests the first of the upcoming hooks. -/
theorem SendAt.test {p : Addr} (h : SendAt passed (p :: upcoming) send record) (d : Hook) (send' : SignalSend)
    (hn : (passed ++ p :: upcoming).Nodup) (hsignal : send'.signal = send.signal)
    (hpoint : send'.point = if SendRecord.shouldCall send (p, d) then .callback p upcoming.head?
      else .loop upcoming.head?) :
    SendAt (passed ++ [p]) upcoming send' (record.add (p, d) send') := by
  have hp : p ∉ passed := fun hp => (List.nodup_append.mp hn).2.2 p hp p (List.mem_cons_self ..) rfl
  have hcall : SendRecord.shouldCall send' = SendRecord.shouldCall send := by
    funext x
    rw [SendRecord.shouldCall, SendRecord.shouldCall, hsignal]
  refine ⟨fun _ => ?_, fun q hq => ?_, ?_, fun c hc => ?_, fun c hc => ?_, fun c hc => ?_, ?_⟩
  · rw [hpoint]
    split <;> rfl
  · rw [hpoint] at hq
    split at hq
    · cases hq
      simp
    · cases hq
  · rw [SendRecord.add, List.map_append]
    exact h.tested.append (List.Sublist.refl _)
  · rw [SendRecord.add, List.map_append, List.mem_append]
    rcases List.mem_append.mp hc with hc | hc
    · rw [← h.missed c hc]
      have hcp : c ≠ p := ne_of_mem_of_not_mem hc hp
      simp [hcp]
    · obtain rfl := List.mem_singleton.mp hc
      exact iff_of_true (.inr (by simp)) fun hm => hp (h.missedPassed c hm)
  · exact List.mem_append_left _ (h.missedPassed c hc)
  · obtain ⟨hin, hnot⟩ := h.present c hc
    refine ⟨?_, hnot⟩
    rw [List.append_assoc]
    exact hin
  · rw [SendRecord.add, List.filter_append, List.map_append, hcall, ← h.called, hpoint]
    cases hs : SendRecord.shouldCall send (p, d) with
    | true => simp [hs]
    | false => simp [hs]

end

/-! ## The invariant -/

structure HookInv (sys : HookSystem) (history : HookHistory) (b : HookType → List (Addr × Hook)) : Prop where
  lists : HookLists sys.hooks b
  recursion : sys.hooks.hookExecRecursion = sys.stack.length
  pending : sys.hooks.realDeletePending = false → ∀ type, ∀ x ∈ b type, x.2.deleted = false
  idle : sys.stack = [] → ∀ type, ∀ x ∈ b type, x.2.deleted = false
  names : HookNames b
  births : ∀ type, ∀ x ∈ b type, history.birth x.1 < history.clock
  order : ∀ type, type ≠ .command → (b type).Pairwise fun x y =>
    x.2.deleted = false → y.2.deleted = false → HookOrder history.birth x y
  callbacks : ∀ send ∈ sys.stack.tail, send.point.current ≠ none
  running : ∀ type, ∀ x ∈ b type, x.2.running = true ↔ x.1 ∈ sys.running
  distinct : sys.running.Nodup
  sends : List.Forall₂ (SendOk (addrs (b .signal))) sys.stack history.sends

theorem running_cons_none {hooks : Hooks} {send : SignalSend} {stack : List SignalSend}
    (h : send.point.current = none) : HookSystem.running ⟨hooks, send :: stack⟩ = HookSystem.running ⟨hooks, stack⟩ :=
  List.filterMap_cons_none h

theorem running_cons_some {hooks : Hooks} {send : SignalSend} {stack : List SignalSend} {p : Addr}
    (h : send.point.current = some p) :
    HookSystem.running ⟨hooks, send :: stack⟩ = p :: HookSystem.running ⟨hooks, stack⟩ := List.filterMap_cons_some h

/-- What may become of a hook that stays in its list. -/
structure HookKept (d d' : Hook) : Prop where
  type : d'.type = d.type
  priority : d'.priority = d.priority
  deleted : d'.deleted = false → d.deleted = false ∧ d'.hookData = d.hookData

section

variable {sys : HookSystem} {history : HookHistory} {b : HookType → List (Addr × Hook)} {type : HookType} {a : Addr}
  {d d' : Hook}

/-- The hooks of the lists after a change are those before, or what became of
the one that was changed. -/
theorem HookLists.mem_set (h : HookLists sys.hooks b) (hmem : (a, d) ∈ b type) {t : HookType} {x : Addr × Hook}
    (hx : x ∈ setHook a d' b t) : x = (a, d') ∧ t = type ∨ x.1 ≠ a ∧ x ∈ b t := by
  rcases mem_setHook hx with ⟨rfl, ha⟩ | hx
  · refine .inl ⟨rfl, ?_⟩
    by_contra hne
    exact h.lists.disjoint t type hne a ha (List.mem_map_of_mem hmem)
  · exact .inr hx

theorem HookInv.names_set (h : HookInv sys history b) (hmem : (a, d) ∈ b type) (hkept : HookKept d d') :
    HookNames (setHook a d' b) := by
  intro t x hx hdel
  rcases h.lists.mem_set hmem hx with ⟨rfl, -⟩ | ⟨-, hx⟩
  · obtain ⟨hdel', hdata⟩ := hkept.deleted hdel
    rw [hdata]
    exact h.names type (a, d) hmem hdel'
  · exact h.names t x hx hdel

theorem HookInv.births_set (h : HookInv sys history b) (hmem : (a, d) ∈ b type) :
    ∀ t, ∀ x ∈ setHook a d' b t, history.birth x.1 < history.clock := by
  intro t x hx
  rcases h.lists.mem_set hmem hx with ⟨rfl, -⟩ | ⟨-, hx⟩
  · exact h.births type (a, d) hmem
  · exact h.births t x hx

theorem HookInv.order_set (h : HookInv sys history b) (hmem : (a, d) ∈ b type) (hkept : HookKept d d')
    (t : HookType) (ht : t ≠ .command) : (setHook a d' b t).Pairwise fun x y =>
      x.2.deleted = false → y.2.deleted = false → HookOrder history.birth x y := by
  rw [setHook, List.pairwise_map]
  have hsame : ∀ x ∈ b t, (if x.1 = a then (a, d') else x).1 = x.1 ∧
      (if x.1 = a then (a, d') else x).2.priority = x.2.priority ∧
      ((if x.1 = a then (a, d') else x).2.deleted = false → x.2.deleted = false) := by
    intro x hx
    split
    · rename_i hxa
      subst hxa
      obtain rfl : d = x.2 := h.lists.lists.data_unique hmem hx
      exact ⟨rfl, hkept.priority, fun hdel => (hkept.deleted hdel).1⟩
    · exact ⟨rfl, rfl, id⟩
  refine (h.order t ht).imp_of_mem fun {x y} hx hy hxy hdx hdy => ?_
  obtain ⟨hax, hpx, hdx'⟩ := hsame x hx
  obtain ⟨hay, hpy, hdy'⟩ := hsame y hy
  rw [HookOrder, hax, hay, hpx, hpy]
  exact hxy (hdx' hdx) (hdy' hdy)

/-- A hook is changed while sends run. -/
theorem HookInv.set (h : HookInv sys history b) (hmem : (a, d) ∈ b type) (hkept : HookKept d d') {sys' : HookSystem}
    {sends : List SendRecord}
    (hlists : HookLists sys'.hooks (setHook a d' b))
    (hrecursion : sys'.hooks.hookExecRecursion = sys'.stack.length) (hstack : sys'.stack ≠ [])
    (hpending : sys'.hooks.realDeletePending = false → sys.hooks.realDeletePending = false ∧ d'.deleted = d.deleted)
    (hcallbacks : ∀ send ∈ sys'.stack.tail, send.point.current ≠ none)
    (hrunning : d'.running = true ↔ a ∈ sys'.running)
    (hothers : ∀ c, c ≠ a → (c ∈ sys'.running ↔ c ∈ sys.running))
    (hdistinct : sys'.running.Nodup)
    (hsends : List.Forall₂ (SendOk (addrs (b .signal))) sys'.stack sends) :
    HookInv sys' { history with sends } (setHook a d' b) := by
  refine ⟨hlists, hrecursion, fun hp t x hx => ?_, fun h0 => absurd h0 hstack, h.names_set hmem hkept,
    h.births_set hmem, h.order_set hmem hkept, hcallbacks, fun t x hx => ?_, hdistinct, ?_⟩
  · obtain ⟨hp, hdel⟩ := hpending hp
    rcases h.lists.mem_set hmem hx with ⟨rfl, -⟩ | ⟨-, hx⟩
    · exact hdel.trans (h.pending hp type (a, d) hmem)
    · exact h.pending hp t x hx
  · rcases h.lists.mem_set hmem hx with ⟨rfl, -⟩ | ⟨hxa, hx⟩
    · exact hrunning
    · rw [hothers x.1 hxa]
      exact h.running t x hx
  · rw [addrs_setHook]
    exact hsends

/-! ## The acts -/

theorem HookInv.freed_kept (h : HookInv sys history b) {sys' : HookSystem} {b' : HookType → List (Addr × Hook)}
    (h' : HookLists sys'.hooks b') (hsub : ∀ t, ∀ c ∈ addrs (b t), c ∈ addrs (b' t))
    (hstack : sys.stack ≠ [] → sys'.stack ≠ []) : HooksFreedLate sys sys' := by
  refine ⟨fun _ c hc => ?_, fun h0 h1 => absurd h1 (hstack h0)⟩
  obtain ⟨t, ht⟩ := h.lists.allocated.mp hc
  exact h'.allocated.mpr ⟨t, hsub t c ht⟩

/-- The hooks whose callbacks run are in the list. -/
theorem HookInv.running_mem (h : HookInv sys history b) (ha : a ∈ sys.running) : a ∈ addrs (b .signal) := by
  obtain ⟨send, hsend, hcurrent⟩ := List.mem_filterMap.mp ha
  obtain ⟨record, passed, upcoming, hl, hat⟩ := forall₂_exists h.sends hsend
  rw [hl]
  exact List.mem_append_left _ (hat.current a hcurrent)

/-- Sends in callbacks are not at their end. -/
theorem HookInv.not_ended (h : HookInv sys history b) (hcalls : sys.Calls) {send : SignalSend}
    (hsend : send ∈ sys.stack) : send.point ≠ .ended := by
  have hcurrent : send.point.current ≠ none := by
    cases hstack : sys.stack with
    | nil =>
      rw [hstack] at hsend
      cases hsend
    | cons top stack =>
      rw [hstack] at hsend
      rcases List.mem_cons.mp hsend with rfl | hsend
      · exact hcalls send (by rw [hstack]; rfl)
      · exact h.callbacks send (by rw [hstack]; exact hsend)
  intro hend
  rw [hend] at hcurrent
  exact hcurrent rfl

/-- The place of a new hook in the order. -/
theorem order_insert {birth : Addr → Nat} {clock : Nat} {newHook : Addr} {hook : Hook} {xs ys : List (Addr × Hook)}
    (hcommand : hook.type ≠ .command)
    (hxs : ∀ x ∈ xs, hookGoesBefore hook x.2 = some false)
    (hys : ∀ y ∈ ys.head?, hookGoesBefore hook y.2 = some true)
    (hfresh : newHook ∉ addrs (xs ++ ys)) (hbirth : ∀ x ∈ xs ++ ys, birth x.1 < clock)
    (horder : (xs ++ ys).Pairwise fun x y => x.2.deleted = false → y.2.deleted = false → HookOrder birth x y) :
    (xs ++ (newHook, hook) :: ys).Pairwise fun x y => x.2.deleted = false → y.2.deleted = false →
      HookOrder (Function.update birth newHook clock) x y := by
  have hsame : ∀ x ∈ xs ++ ys, Function.update birth newHook clock x.1 = birth x.1 := by
    intro x hx
    refine Function.update_of_ne ?_ ..
    rintro rfl
    exact hfresh (List.mem_map_of_mem hx)
  have hold : (xs ++ ys).Pairwise fun x y => x.2.deleted = false → y.2.deleted = false →
      HookOrder (Function.update birth newHook clock) x y := by
    refine horder.imp_of_mem fun {x y} hx hy hxy => ?_
    rwa [HookOrder, hsame x hx, hsame y hy]
  rw [List.pairwise_append] at hold ⊢
  obtain ⟨hx, hy, hcross⟩ := hold
  refine ⟨hx, List.pairwise_cons.mpr ⟨fun y hyy _ hdy => ?_, hy⟩, fun x hxx y hyy => ?_⟩
  · -- the hooks after the new one have a smaller priority
    refine .inl ?_
    cases ys with
    | nil => cases hyy
    | cons y0 ys =>
      have hgoes := hys y0 rfl
      rw [hookGoesBefore, if_neg hcommand] at hgoes
      split at hgoes
      · cases hgoes
      · rename_i hd0
        have hpriority : hook.priority > y0.2.priority := by simpa using hgoes
        rcases List.mem_cons.mp hyy with rfl | hyy
        · exact hpriority
        · have hrest := (List.pairwise_cons.mp hy).1 y hyy (Bool.eq_false_iff.mpr hd0) hdy
          rcases hrest with hlt | ⟨heq, -⟩
          · exact Int.lt_trans hlt hpriority
          · exact heq ▸ hpriority
  · rcases List.mem_cons.mp hyy with rfl | hyy
    · intro hdx _
      have hgoes := hxs x hxx
      rw [hookGoesBefore, hdx, if_neg hcommand] at hgoes
      have hpriority : hook.priority ≤ x.2.priority := by simpa using hgoes
      rcases Int.lt_or_eq_of_le hpriority with hlt | heq
      · exact .inl hlt
      · refine .inr ⟨heq.symm, ?_⟩
        have hmem := List.mem_append_left ys hxx
        rw [hsame x hmem, Function.update_self]
        exact hbirth x hmem
    · exact hcross x hxx y hyy

/-- A hook is created. -/
theorem HookInv.add (h : HookInv sys history b) (hcalls : sys.Calls) (hook : Hook) {newHook : Addr}
    (hhook : hook.hookData ≠ none) (hdel : hook.deleted = false) (hrun : hook.running = false)
    (hnew : sys.hooks.memory newHook = none) :
    ∃ hooks' b', hookAddToList sys.hooks newHook hook = some hooks' ∧
      HookInv { sys with hooks := hooks' } (history.created { sys with hooks := hooks' } newHook) b' ∧
      HooksFreedLate sys { sys with hooks := hooks' } := by
  obtain ⟨xs, ys, hooks', hb, hxs, hys, hadd, hexec, hlists⟩ := h.lists.addToList h.names hhook hnew
  have hfree : ∀ t, newHook ∉ addrs (b t) := fun t ht => h.lists.allocated.mpr ⟨t, ht⟩ hnew
  have hmem : ∀ t, ∀ x ∈ Function.update b hook.type (xs ++ (newHook, hook) :: ys) t,
      x = (newHook, hook) ∨ x.1 ≠ newHook ∧ x ∈ b t := by
    intro t x hx
    have hold : ∀ y ∈ b t, y.1 ≠ newHook := fun y hy => by
      rintro rfl
      exact hfree t (List.mem_map_of_mem hy)
    rcases eq_or_ne t hook.type with rfl | ht
    · rw [Function.update_self, List.mem_append, List.mem_cons] at hx
      rw [hb] at hold ⊢
      rcases hx with hx | rfl | hx
      · exact .inr ⟨hold x (List.mem_append_left _ hx), List.mem_append_left _ hx⟩
      · exact .inl rfl
      · exact .inr ⟨hold x (List.mem_append_right _ hx), List.mem_append_right _ hx⟩
    · rw [Function.update_of_ne ht] at hx
      exact .inr ⟨hold x hx, hx⟩
  refine ⟨hooks', _, hadd, ⟨hlists, ?_, ?_, ?_, ?_, ?_, ?_, h.callbacks, ?_, h.distinct, ?_⟩,
    h.freed_kept hlists (fun t c hc => ?_) id⟩
  · exact hexec.1.trans h.recursion
  · intro hp t x hx
    rcases hmem t x hx with rfl | ⟨-, hx⟩
    · exact hdel
    · exact h.pending (hexec.2.symm.trans hp) t x hx
  · intro h0 t x hx
    rcases hmem t x hx with rfl | ⟨-, hx⟩
    · exact hdel
    · exact h.idle h0 t x hx
  · intro t x hx hd
    rcases hmem t x hx with rfl | ⟨-, hx⟩
    · exact hhook
    · exact h.names t x hx hd
  · intro t x hx
    rcases hmem t x hx with rfl | ⟨hne, hx⟩
    · simp [HookHistory.created]
    · simp only [HookHistory.created, Function.update_of_ne hne]
      exact Nat.lt_succ_of_lt (h.births t x hx)
  · intro t ht
    rcases eq_or_ne t hook.type with rfl | hne
    · rw [Function.update_self]
      have horder := h.order hook.type ht
      have hbirth := h.births hook.type
      have hfresh := hfree hook.type
      rw [hb] at horder hbirth hfresh
      exact order_insert ht hxs hys hfresh hbirth horder
    · rw [Function.update_of_ne hne]
      refine (h.order t ht).imp_of_mem fun {x y} hx hy hxy => ?_
      have hsame : ∀ x ∈ b t, Function.update history.birth newHook history.clock x.1 = history.birth x.1 := by
        intro x hx
        refine Function.update_of_ne ?_ ..
        rintro rfl
        exact hfree t (List.mem_map_of_mem hx)
      simp only [HookHistory.created, HookOrder, hsame x hx, hsame y hy]
      exact hxy
  · intro t x hx
    rcases hmem t x hx with rfl | ⟨-, hx⟩
    · refine iff_of_false (by rw [hrun]; exact Bool.false_ne_true) fun hin => ?_
      exact hfree .signal (h.running_mem hin)
    · exact h.running t x hx
  · refine forall₂_zipWith h.sends fun send hsend record hok => ?_
    rcases eq_or_ne HookType.signal hook.type with htype | htype
    · have hold : addrs (b .signal) = addrs xs ++ addrs ys := by rw [htype, hb, addrs_append]
      have hfresh := hfree .signal
      rw [hold] at hok hfresh
      have haddrs : addrs (Function.update b hook.type (xs ++ (newHook, hook) :: ys) .signal) =
          addrs xs ++ newHook :: addrs ys := by
        rw [← htype, Function.update_self, addrs_append]
        rfl
      rw [haddrs]
      exact hok.created hlists haddrs hfresh (h.not_ended hcalls hsend)
    · rw [SendRecord.created_elsewhere hlists (by rw [Function.update_of_ne htype]; exact hfree .signal),
        Function.update_of_ne htype]
      exact hok
  · rcases eq_or_ne t hook.type with rfl | hne
    · rw [hb, addrs_append, List.mem_append] at hc
      rw [Function.update_self, addrs_append, List.mem_append]
      exact hc.imp_right (List.mem_cons_of_mem _)
    · rwa [Function.update_of_ne hne]

/-- No hook is created. -/
theorem HookInv.created_none (h : HookInv sys history b) {newHook : Addr} (hnew : sys.hooks.memory newHook = none) :
    HookInv sys (history.created sys newHook) b := by
  have hfree : ∀ t, newHook ∉ addrs (b t) := fun t ht => h.lists.allocated.mpr ⟨t, ht⟩ hnew
  have hsame : ∀ t, ∀ x ∈ b t, Function.update history.birth newHook history.clock x.1 = history.birth x.1 := by
    intro t x hx
    refine Function.update_of_ne ?_ ..
    rintro rfl
    exact hfree t (List.mem_map_of_mem hx)
  refine ⟨h.lists, h.recursion, h.pending, h.idle, h.names, fun t x hx => ?_, fun t ht => ?_, h.callbacks, h.running,
    h.distinct, ?_⟩
  · simp only [HookHistory.created, hsame t x hx]
    exact Nat.lt_succ_of_lt (h.births t x hx)
  · refine (h.order t ht).imp_of_mem fun {x y} hx hy hxy => ?_
    simp only [HookHistory.created, HookOrder, hsame t x hx, hsame t y hy]
    exact hxy
  · refine forall₂_zipWith h.sends fun send _ record hok => ?_
    rw [SendRecord.created_elsewhere h.lists (hfree .signal)]
    exact hok

/-- Hooks are freed while nothing runs. -/
theorem HookInv.shrink (h : HookInv sys history b) {hooks' : Hooks} {b' : HookType → List (Addr × Hook)}
    (hlists : HookLists hooks' b') (hsub : ∀ t, (b' t).Sublist (b t)) (hrecursion : hooks'.hookExecRecursion = 0)
    (hdeleted : ∀ t, ∀ x ∈ b' t, x.2.deleted = false) (hrunning : sys.running = []) :
    HookInv ⟨hooks', []⟩ { history with sends := [] } b' := by
  refine ⟨hlists, hrecursion, fun _ => hdeleted, fun _ => hdeleted, fun t x hx => h.names t x ((hsub t).subset hx),
    fun t x hx => h.births t x ((hsub t).subset hx), fun t ht => (h.order t ht).sublist (hsub t), nofun,
    fun t x hx => ?_, .nil, .nil⟩
  rw [h.running t x ((hsub t).subset hx), hrunning]
  rfl

theorem HookInv.unhook (h : HookInv sys history b) (hook : Option Addr) :
    ∃ hooks' b', Wirc.unhook sys.hooks hook = some hooks' ∧ HookInv { sys with hooks := hooks' } history b' ∧
      HooksFreedLate sys { sys with hooks := hooks' } := by
  rcases h.lists.unhook hook with hsame | ⟨type, d, xs, ys, a, -, hb, hdel, hooks', hunhook, hrec, hcases⟩
  · exact ⟨sys.hooks, b, hsame, h, h.freed_kept h.lists (fun _ _ => id) id⟩
  rcases hcases with ⟨hzero, hlists, -⟩ | ⟨hne, hlists, hpending⟩
  · have hstack : sys.stack = [] := List.length_eq_zero_iff.mp (h.recursion.symm.trans hzero)
    have hsub : ∀ t, (Function.update b type (xs ++ ys) t).Sublist (b t) := by
      intro t
      rcases eq_or_ne t type with rfl | ht
      · rw [Function.update_self, hb]
        exact List.Sublist.append_left (List.sublist_cons_self ..) xs
      · rw [Function.update_of_ne ht]
    have hinv := h.shrink hlists hsub (hrec.trans hzero)
      (fun t x hx => h.idle hstack t x ((hsub t).subset hx)) (by rw [HookSystem.running, hstack]; rfl)
    have hsends := h.sends
    obtain ⟨hooks, stack⟩ := sys
    obtain ⟨clock, birth, sends⟩ := history
    obtain rfl : stack = [] := hstack
    cases hsends
    exact ⟨hooks', _, hunhook, hinv, fun hn => absurd rfl hn, fun hn => absurd rfl hn⟩
  · have hstack : sys.stack ≠ [] := fun h0 => hne (h.recursion.trans (by rw [h0]; rfl))
    have hmem : (a, d) ∈ b type := by
      rw [hb]
      simp
    have hkept : HookKept d { d with hookData := none, deleted := true } := ⟨rfl, rfl, nofun⟩
    refine ⟨hooks', _, hunhook, h.set hmem hkept hlists (hrec.trans h.recursion) hstack
      (fun hp => ?_) h.callbacks (h.running type (a, d) hmem) (fun _ _ => Iff.rfl) h.distinct h.sends,
      h.freed_kept hlists (fun t c hc => ?_) id⟩
    · rw [hpending] at hp
      cases hp
    · rwa [addrs_setHook]

/-- A signal is sent. -/
theorem HookInv.send (h : HookInv sys history b) (hcalls : sys.Calls) (signal : Str) :
    HookInv ⟨(hookSignalSendStart sys.hooks signal).1, (hookSignalSendStart sys.hooks signal).2 :: sys.stack⟩
      { history with sends := ⟨(hookList sys.hooks .signal).map Prod.fst, [], [], []⟩ :: history.sends } b := by
  refine ⟨h.lists.exec _ _, congrArg Nat.succ h.recursion, h.pending, nofun, h.names, h.births, h.order,
    fun send hsend => ?_, h.running, h.distinct, .cons ⟨[], addrs (b .signal), rfl, ?_⟩ h.sends⟩
  · cases hstack : sys.stack with
    | nil =>
      rw [hstack] at hsend
      cases hsend
    | cons top stack =>
      rw [List.tail_cons, hstack] at hsend
      rcases List.mem_cons.mp hsend with rfl | hsend
      · exact hcalls send (by rw [hstack]; rfl)
      · exact h.callbacks send (by rw [hstack]; exact hsend)
  · refine ⟨fun _ => ?_, nofun, List.nil_sublist _, nofun, nofun, fun a ha => ⟨?_, nofun⟩, rfl⟩
    · exact (h.lists.first .signal).trans firstPtr_none
    · rw [h.lists.hookList] at ha
      exact ha

/-- The innermost send goes on. -/
theorem HookInv.top {hooks : Hooks} {send send' : SignalSend} {stack : List SignalSend}
    (h : HookInv ⟨hooks, send :: stack⟩ history b) (hcurrent : send.point.current = none)
    (hcurrent' : send'.point.current = none) {sends : List SendRecord}
    (hsends : List.Forall₂ (SendOk (addrs (b .signal))) (send' :: stack) sends) :
    HookInv ⟨hooks, send' :: stack⟩ { history with sends } b := by
  have hrunning : HookSystem.running ⟨hooks, send' :: stack⟩ = HookSystem.running ⟨hooks, send :: stack⟩ := by
    rw [running_cons_none hcurrent, running_cons_none hcurrent']
  refine ⟨h.lists, h.recursion, h.pending, nofun, h.names, h.births, h.order, h.callbacks, fun t x hx => ?_, ?_,
    hsends⟩
  · rw [hrunning]
    exact h.running t x hx
  · rw [hrunning]
    exact h.distinct

/-- The test of a hook that has its name unless it is deleted. -/
theorem hookSignalMatches_ok (send : SignalSend) (a : Addr) (hd : d.deleted = false → d.hookData ≠ none) :
    hookSignalMatches send.signal d = some (SendRecord.shouldCall send (a, d)) := by
  rw [hookSignalMatches, SendRecord.shouldCall]
  cases hdel : d.deleted with
  | true => rfl
  | false =>
    obtain ⟨mask, hmask⟩ := Option.ne_none_iff_exists'.mp (hd hdel)
    cases d.running <;> simp [hmask]

/-- A round of the loop of the innermost send. -/
theorem HookInv.test {hooks : Hooks} {send : SignalSend} {stack : List SignalSend} {p : Addr}
    {clock : Nat} {birth : Addr → Nat} {record : SendRecord} {sends : List SendRecord}
    (h : HookInv ⟨hooks, send :: stack⟩ ⟨clock, birth, record :: sends⟩ b)
    (hpoint : send.point = .loop (some p)) :
    ∃ hooks' send' b', hookSignalSendTest hooks send (some p) = some (hooks', send') ∧
      HookInv ⟨hooks', send' :: stack⟩ ⟨clock, birth, record.test hooks (some p) send' :: sends⟩ b' ∧
      HooksFreedLate ⟨hooks, send :: stack⟩ ⟨hooks', send' :: stack⟩ := by
  have hnone : send.point.current = none := by rw [hpoint]; rfl
  obtain ⟨⟨passed, upcoming, hl, hat⟩, hrest⟩ := List.forall₂_cons.mp h.sends
  have hsaved := hat.saved (by rw [hpoint]; nofun)
  rw [hpoint] at hsaved
  cases upcoming with
  | nil => cases hsaved
  | cons u upcoming =>
    obtain rfl : p = u := Option.some.inj hsaved
    obtain ⟨xs, ys, hb, rfl, hys⟩ := List.map_eq_append_iff.mp hl
    cases ys with
    | nil => cases hys
    | cons y ys =>
      obtain ⟨q, d⟩ := y
      obtain ⟨rfl, rfl⟩ := List.cons.inj hys
      have hmem : (q, d) ∈ b .signal := by
        rw [hb]
        simp
      have hseg := h.lists.lists.linked .signal
      rw [hb, seg_append] at hseg
      have hnode : hooks.memory q = some ⟨d, lastPtr none xs, firstPtr ys none⟩ := hseg.2.1
      have hnodup := h.lists.lists.nodup .signal
      rw [hl] at hnodup
      have hmatch := hookSignalMatches_ok send q (h.names .signal (q, d) hmem)
      have hrecord : ∀ send', record.test hooks (some q) send' = record.add (q, d) send' := fun send' => by
        simp only [SendRecord.test, hnode]
      have hl' : addrs (b .signal) = (List.map Prod.fst xs ++ [q]) ++ addrs ys := by
        rw [hl, List.append_assoc]
        rfl
      cases hs : SendRecord.shouldCall send (q, d) with
      | true =>
        have hkept : HookKept d { d with running := true } := ⟨rfl, rfl, fun hd => ⟨hd, rfl⟩⟩
        have hrunning : d.running = false := by
          rw [SendRecord.shouldCall] at hs
          simp only [Bool.and_eq_true, Bool.not_eq_true'] at hs
          exact hs.1.2
        have hnot : q ∉ HookSystem.running ⟨hooks, stack⟩ := fun hq => by
          have hr := (h.running .signal (q, d) hmem).mpr (by rwa [running_cons_none hnone])
          rw [hrunning] at hr
          cases hr
        have hat' := hat.test d { send with point := .callback q (firstPtr ys none) } hnodup rfl
          (by rw [hs, if_pos rfl, firstPtr_none])
        refine ⟨{ hooks with memory := hooks.memory.setData q { d with running := true } },
          { send with point := .callback q (firstPtr ys none) }, setHook q { d with running := true } b, ?_,
          h.set hmem hkept (h.lists.setData hmem _ rfl) h.recursion (List.cons_ne_nil _ _) (fun hp => ⟨hp, rfl⟩)
            h.callbacks ?_ (fun c hc => ?_) ?_ (.cons ⟨_, _, hl', hrecord _ ▸ hat'⟩ hrest),
          h.freed_kept (h.lists.setData hmem _ rfl) (fun t c hc => ?_) fun _ => List.cons_ne_nil _ _⟩
        · simp only [hookSignalSendTest, hnode, hmatch, hs, Option.bind_eq_bind, Option.bind_some, if_true]
        · rw [running_cons_some (p := q) rfl]
          exact iff_of_true rfl (List.mem_cons_self ..)
        · rw [running_cons_some (p := q) rfl, running_cons_none hnone, List.mem_cons]
          exact or_iff_right hc
        · rw [running_cons_some (p := q) rfl]
          have hdistinct := h.distinct
          rw [running_cons_none hnone] at hdistinct
          exact List.nodup_cons.mpr ⟨hnot, hdistinct⟩
        · rwa [addrs_setHook]
      | false =>
        have hat' := hat.test d { send with point := .loop (firstPtr ys none) } hnodup rfl
          (by rw [hs, if_neg Bool.false_ne_true, firstPtr_none])
        refine ⟨hooks, { send with point := .loop (firstPtr ys none) }, b, ?_,
          h.top hnone rfl (.cons ⟨_, _, hl', hrecord _ ▸ hat'⟩ hrest),
          h.freed_kept h.lists (fun _ _ => id) fun _ => List.cons_ne_nil _ _⟩
        simp only [hookSignalSendTest, hnode, hmatch, hs, Option.bind_eq_bind, Option.bind_some, Bool.false_eq_true,
          if_false]

/-- The innermost send comes to the end of the list. -/
theorem HookInv.testNone {hooks : Hooks} {send : SignalSend} {stack : List SignalSend} {clock : Nat}
    {birth : Addr → Nat} {record : SendRecord} {sends : List SendRecord}
    (h : HookInv ⟨hooks, send :: stack⟩ ⟨clock, birth, record :: sends⟩ b) (hpoint : send.point = .loop none) :
    HookInv ⟨hooks, { send with point := .ended } :: stack⟩ ⟨clock, birth, record :: sends⟩ b := by
  obtain ⟨⟨passed, upcoming, hl, hat⟩, hrest⟩ := List.forall₂_cons.mp h.sends
  refine h.top (by rw [hpoint]; rfl) rfl (.cons ⟨passed, upcoming, hl, fun hn => absurd rfl hn, nofun, hat.tested,
    hat.missed, hat.missedPassed, hat.present, hat.called⟩ hrest)

/-- The callback of the innermost send returns. -/
theorem HookInv.returns {hooks : Hooks} {send : SignalSend} {stack : List SignalSend} {p : Addr} {n : Option Addr}
    (h : HookInv ⟨hooks, send :: stack⟩ history b) (hpoint : send.point = .callback p n) (rc : Int) :
    ∃ hooks' send' b', hookSignalSendReturn hooks send p n rc = some (hooks', send') ∧
      HookInv ⟨hooks', send' :: stack⟩ history b' ∧
      HooksFreedLate ⟨hooks, send :: stack⟩ ⟨hooks', send' :: stack⟩ := by
  have hcurrent : send.point.current = some p := by rw [hpoint]; rfl
  have hdistinct := h.distinct
  rw [running_cons_some hcurrent, List.nodup_cons] at hdistinct
  obtain ⟨hnot, hnodup⟩ := hdistinct
  have hin : p ∈ addrs (b .signal) := h.running_mem (by rw [running_cons_some hcurrent]; exact List.mem_cons_self ..)
  obtain ⟨⟨q, d⟩, hmem, hq⟩ := List.mem_map.mp hin
  obtain rfl : q = p := hq
  obtain ⟨node, hnode, rfl⟩ := h.lists.node hmem
  have hnode : hooks.memory q = some node := hnode
  have hkept : HookKept node.data { node.data with running := false } := ⟨rfl, rfl, fun hd => ⟨hd, rfl⟩⟩
  have hset : ∀ point : SendPoint, point.current = none → (point ≠ .ended → point.saved = n) →
      HookInv ⟨{ hooks with memory := hooks.memory.setData q { node.data with running := false } },
        { send with rc, point } :: stack⟩ history (setHook q { node.data with running := false } b) := by
    intro point hnone hsaved
    have hsends := h.sends
    obtain ⟨clock, birth, sends⟩ := history
    cases hsends with
    | cons hok hrest =>
      obtain ⟨passed, upcoming, hl, hat⟩ := hok
      refine h.set hmem hkept (h.lists.setData hmem _ rfl) h.recursion (List.cons_ne_nil _ _) (fun hp => ⟨hp, rfl⟩)
        h.callbacks ?_ (fun c hc => ?_) ?_ (.cons ⟨passed, upcoming, hl, fun hend => ?_, fun c hc => ?_, hat.tested,
          hat.missed, hat.missedPassed, hat.present, hat.called⟩ hrest)
      · rw [running_cons_none hnone]
        exact iff_of_false Bool.false_ne_true hnot
      · rw [running_cons_none hnone, running_cons_some hcurrent, List.mem_cons]
        exact (or_iff_right hc).symm
      · rw [running_cons_none hnone]
        exact hnodup
      · have hsaved' := hat.saved (by rw [hpoint]; nofun)
        rw [hpoint] at hsaved'
        exact (hsaved hend).trans hsaved'
      · rw [hnone] at hc
        cases hc
  have hfreed : ∀ point : SendPoint, HooksFreedLate ⟨hooks, send :: stack⟩
      ⟨{ hooks with memory := hooks.memory.setData q { node.data with running := false } },
        { send with rc, point } :: stack⟩ := fun _ =>
    h.freed_kept (h.lists.setData hmem _ rfl) (fun t c hc => by rwa [addrs_setHook]) fun _ => List.cons_ne_nil _ _
  simp only [hookSignalSendReturn, hnode, Option.bind_eq_bind, Option.bind_some]
  rcases eq_or_ne rc rcOkEat with hrc | hrc
  · rw [if_pos hrc]
    exact ⟨_, _, _, rfl, hset .ended rfl fun hn => absurd rfl hn, hfreed .ended⟩
  · rw [if_neg hrc]
    exact ⟨_, _, _, rfl, hset (.loop n) rfl fun _ => rfl, hfreed (.loop n)⟩

/-- The innermost send returns. -/
theorem HookInv.end {hooks : Hooks} {send : SignalSend} {stack : List SignalSend} {clock : Nat}
    {birth : Addr → Nat} {record : SendRecord} {sends : List SendRecord}
    (h : HookInv ⟨hooks, send :: stack⟩ ⟨clock, birth, record :: sends⟩ b) (hpoint : send.point = .ended) :
    ∃ hooks' b', hookExecEnd hooks = some hooks' ∧ HookInv ⟨hooks', stack⟩ ⟨clock, birth, sends⟩ b' ∧
      HooksFreedLate ⟨hooks, send :: stack⟩ ⟨hooks', stack⟩ := by
  have hrunning : HookSystem.running ⟨hooks, send :: stack⟩ = HookSystem.running ⟨hooks, stack⟩ :=
    running_cons_none (by rw [hpoint]; rfl)
  have hrec : hooks.hookExecRecursion - 1 = stack.length := by
    rw [h.recursion]
    rfl
  have hlists : HookLists { hooks with hookExecRecursion := hooks.hookExecRecursion - 1 } b :=
    h.lists.exec _ hooks.realDeletePending
  cases stack with
  | nil =>
    obtain ⟨hooks', hremove, hrec', hlists'⟩ := hlists.removeDeleted h.pending
    cases (List.forall₂_cons.mp h.sends).2
    refine ⟨hooks', _, ?_, h.shrink hlists' (fun t => List.filter_sublist) (hrec'.trans hrec)
      (fun t x hx => by simpa using (List.mem_filter.mp hx).2) hrunning, fun hn => absurd rfl hn,
      fun _ _ c node hc => ?_⟩
    · simp only [hookExecEnd, hrec, List.length_nil, if_true]
      rw [← hremove, hrec]
      rfl
    · obtain ⟨t, ht⟩ := h.lists.allocated.mp (hc ▸ Option.some_ne_none node)
      obtain ⟨⟨c', d⟩, hmem, hc'⟩ := List.mem_map.mp ht
      obtain rfl : c' = c := hc'
      have hdata : ∀ t d, (c', d) ∈ b t → node.data = d := fun t d hd => by
        obtain ⟨node', hnode', rfl⟩ := h.lists.node hd
        rw [Option.some.inj (hc.symm.trans hnode')]
      rw [← not_iff_not, ← ne_eq, hlists'.allocated]
      constructor
      · rintro ⟨t', ht'⟩
        obtain ⟨⟨c, d'⟩, hd', hcc⟩ := List.mem_map.mp ht'
        obtain rfl : c = c' := hcc
        obtain ⟨hb, hdel⟩ := List.mem_filter.mp hd'
        rw [hdata t' d' hb]
        simpa using hdel
      · intro hdel
        refine ⟨t, List.mem_map.mpr ⟨(c', d), List.mem_filter.mpr ⟨hmem, ?_⟩, rfl⟩⟩
        rw [hdata t d hmem] at hdel
        simpa using hdel
  | cons top stack =>
    refine ⟨_, b, ?_, ⟨hlists, hrec, h.pending, nofun, h.names, h.births, h.order, fun send hsend => ?_,
      hrunning ▸ h.running, hrunning ▸ h.distinct, (List.forall₂_cons.mp h.sends).2⟩,
      h.freed_kept hlists (fun _ _ => id) fun _ => List.cons_ne_nil _ _⟩
    · simp only [hookExecEnd, hrec, List.length_cons, Nat.add_one_ne_zero, if_false]
    · exact h.callbacks send (List.mem_cons_of_mem _ hsend)

/-! ## All runs -/

theorem HookInv.start : HookInv ⟨hookInit, []⟩ ⟨0, fun _ => 0, []⟩ fun _ => [] := by
  refine ⟨⟨⟨fun _ => trivial, fun _ => List.nodup_nil, fun _ _ _ _ => nofun⟩, fun _ => rfl, fun _ => rfl,
    fun _ _ => nofun, fun _ => rfl, fun _ ha => absurd rfl ha⟩, rfl, fun _ _ _ => nofun, fun _ _ _ => nofun,
    fun _ _ => nofun, fun _ _ => nofun, fun _ _ => .nil, nofun, fun _ _ => nofun, .nil, .nil⟩

/-- What may happen next happens, and keeps the invariant. -/
theorem HookInv.step (h : HookInv sys history b) {act : HookAct} (hact : act.Legal sys) :
    ∃ sys' b', act.run sys = some sys' ∧ HookInv sys' (history.after sys sys' act) b' ∧ HooksFreedLate sys sys' := by
  cases act with
  | signal name newHook =>
    obtain ⟨hcalls, hnew⟩ := hact
    rcases eq_or_ne name [] with rfl | hname
    · exact ⟨sys, b, rfl, h.created_none hnew, h.freed_kept h.lists (fun _ _ => id) id⟩
    · obtain ⟨hooks', b', hadd, hinv, hfreed⟩ := h.add hcalls (hookInitData .signal
        (hookGetPriorityAndName name).1 (hookGetPriorityAndName name).2) (Option.some_ne_none _) rfl rfl hnew
      refine ⟨_, b', ?_, hinv, hfreed⟩
      simp only [HookAct.run, hookSignal, hname, if_false, hadd, Option.bind_eq_bind, Option.bind_some,
        Option.map_some]
  | other type priority name newHook =>
    obtain ⟨hcalls, -, hnew⟩ := hact
    obtain ⟨hooks', b', hadd, hinv, hfreed⟩ := h.add hcalls (hookInitData type priority name)
      (Option.some_ne_none _) rfl rfl hnew
    exact ⟨_, b', by rw [HookAct.run, hadd, Option.map_some], hinv, hfreed⟩
  | unhook hook =>
    obtain ⟨hooks', b', hunhook, hinv, hfreed⟩ := h.unhook hook
    exact ⟨_, b', by rw [HookAct.run, hunhook, Option.map_some], hinv, hfreed⟩
  | send name =>
    exact ⟨_, b, rfl, h.send hact name, h.freed_kept (h.lists.exec _ _) (fun _ _ => id) fun _ => List.cons_ne_nil _ _⟩
  | next =>
    obtain ⟨hooks, stack⟩ := sys
    obtain ⟨clock, birth, sends⟩ := history
    cases stack with
    | nil => exact absurd (fun _ => nofun) hact
    | cons send stack =>
      obtain ⟨signal, rc, point⟩ := send
      have hsends := h.sends
      cases sends with
      | nil => cases hsends
      | cons record sends =>
        cases point with
        | loop ptrHook =>
          cases ptrHook with
          | none =>
            exact ⟨_, b, rfl, h.testNone rfl,
              h.freed_kept h.lists (fun _ _ => id) fun _ => List.cons_ne_nil _ _⟩
          | some p =>
            obtain ⟨hooks', send', b', htest, hinv, hfreed⟩ := h.test rfl
            refine ⟨⟨hooks', send' :: stack⟩, b', ?_, hinv, hfreed⟩
            simp only [HookAct.run, htest, Option.map_some]
        | callback p n => exact absurd (fun _ hs => Option.some.inj hs ▸ nofun) hact
        | ended =>
          obtain ⟨hooks', b', hend, hinv, hfreed⟩ := h.end rfl
          refine ⟨⟨hooks', stack⟩, b', ?_, hinv, hfreed⟩
          simp only [HookAct.run, hend, Option.map_some]
  | returns rc =>
    obtain ⟨hne, hcalls⟩ := hact
    obtain ⟨hooks, stack⟩ := sys
    cases stack with
    | nil => exact absurd rfl hne
    | cons send stack =>
      obtain ⟨signal, rc', point⟩ := send
      cases point with
      | callback p n =>
        obtain ⟨hooks', send', b', hreturn, hinv, hfreed⟩ := h.returns rfl rc
        refine ⟨⟨hooks', send' :: stack⟩, b', ?_, hinv, hfreed⟩
        simp only [HookAct.run, hreturn, Option.map_some]
      | loop ptrHook => exact absurd rfl (hcalls _ rfl)
      | ended => exact absurd rfl (hcalls _ rfl)

theorem HookRun.inv (h : HookRun sys history) : ∃ b, HookInv sys history b := by
  induction h with
  | start => exact ⟨_, HookInv.start⟩
  | step act _ hact hrun ih =>
    obtain ⟨b, hinv⟩ := ih
    obtain ⟨sys', b', hrun', hinv', -⟩ := hinv.step hact
    obtain rfl := Option.some.inj (hrun'.symm.trans hrun)
    exact ⟨b', hinv'⟩

/-- Hooks in all runs: no call follows a pointer to memory that was freed; no hook
is freed while a send runs, and those marked deleted are freed when the last one
ends; hooks are in order; a hook is marked running while its callback runs; and
each send tests the hooks in order, each at most once, calls those that it
should, and unless a callback eats the signal misses only hooks that were added
where its loop had passed. -/
theorem hooks_in_order (h : HookRun sys history) :
    (∀ act : HookAct, act.Legal sys → ∃ sys', act.run sys = some sys' ∧ HooksFreedLate sys sys') ∧
    HooksInOrder sys history ∧
    (∀ type, ∀ hook ∈ hookList sys.hooks type, hook.2.running = true ↔ hook.1 ∈ sys.running) ∧
    List.Forall₂ (fun send record => SendInOrder sys send record ∧ SendComplete sys send record)
      sys.stack history.sends := by
  obtain ⟨b, hinv⟩ := h.inv
  refine ⟨fun act hact => ?_, fun type htype => ?_, fun type hook hhook => ?_, ?_⟩
  · obtain ⟨sys', b', hrun, -, hfreed⟩ := hinv.step hact
    exact ⟨sys', hrun, hfreed⟩
  · rw [hinv.lists.hookList, List.pairwise_filter]
    refine (hinv.order type htype).imp fun {x y} hxy hx hy => hxy ?_ ?_
    · simpa using hx
    · simpa using hy
  · rw [hinv.lists.hookList] at hhook
    exact hinv.running type hook hhook
  · refine hinv.sends.imp fun send record ⟨passed, upcoming, hl, hat⟩ => ?_
    have hnodup := hinv.lists.lists.nodup .signal
    have hlist : (hookList sys.hooks .signal).map Prod.fst = passed ++ upcoming := by
      rw [hinv.lists.hookList]
      exact hl
    rw [hl] at hnodup
    refine ⟨⟨?_, hnodup.sublist (hat.tested.trans (List.sublist_append_left ..)), hat.called⟩, fun hpoint => ?_⟩
    · rw [hlist]
      exact hat.tested.trans (List.sublist_append_left ..)
    · have hsaved := hat.saved (by rw [hpoint]; nofun)
      rw [hpoint] at hsaved
      have hnil : upcoming = [] := List.head?_eq_none_iff.mp hsaved.symm
      have hpresent := hat.present
      rw [hnil, List.append_nil] at hlist hpresent
      refine ⟨fun hook hhook => ?_, fun hook hhook => ?_⟩
      · obtain ⟨hin, hnot⟩ := hpresent hook hhook
        exact (hat.missed hook hin).mpr hnot
      · rw [hlist] at hhook
        exact hat.missed hook hhook

/-- A hook that is on its own. -/
theorem hooks_in_order_one : ∃ sys history, HookRun sys history ∧ sys.hooks.memory 1 ≠ none ∧
    HooksInOrder sys history := by
  have hrun : HookRun _ _ := .step (.signal (lit "500|quit") 1) .start ⟨nofun, rfl⟩ rfl
  exact ⟨_, _, hrun, nofun, (hooks_in_order hrun).2.1⟩

/-- The innermost send calls a callback. -/
theorem HookRun.call {hooks : Hooks} {send : SignalSend} {stack : List SignalSend} {p : Addr} {node : Node Hook}
    (h : HookRun ⟨hooks, send :: stack⟩ history) (hpoint : send.point = .loop (some p))
    (hnode : hooks.memory p = some node) (hmatch : hookSignalMatches send.signal node.data = some true) :
    HookRun ⟨{ hooks with memory := hooks.memory.setData p { node.data with running := true } },
        { send with point := .callback p node.next } :: stack⟩
      (history.after ⟨hooks, send :: stack⟩ ⟨{ hooks with
          memory := hooks.memory.setData p { node.data with running := true } },
        { send with point := .callback p node.next } :: stack⟩ .next) := by
  refine .step .next h (fun hcalls => ?_) ?_
  · have hcurrent := hcalls send rfl
    rw [hpoint] at hcurrent
    exact hcurrent rfl
  · simp only [HookAct.run, hpoint, hookSignalSendTest, hnode, hmatch, Option.bind_eq_bind, Option.bind_some,
      if_true, Option.map_some]

/-- The callback of the only hook adds a hook for the same signal behind it, which
is not called: the loop had saved the end of the list. -/
theorem sends_take_turns_fails : ¬ ∀ sys history, HookRun sys history →
    ∀ send record, (send, record) ∈ sys.stack.zip history.sends → SendTakesTurns sys send record := by
  intro hall
  have hmatch : hookSignalMatches (lit "quit") (hookInitData .signal 1000 (lit "quit")) = some true := by
    decide +kernel
  have h₁ : HookRun _ _ := .step (.signal (lit "quit") 1) .start ⟨nofun, rfl⟩ rfl
  have h₂ : HookRun _ _ := .step (.send (lit "quit")) h₁ nofun rfl
  have h₃ := h₂.call rfl rfl hmatch
  have h₄ : HookRun _ _ := .step (.signal (lit "quit") 2) h₃ ⟨fun _ hs => Option.some.inj hs ▸ nofun, rfl⟩ rfl
  have h₅ : HookRun _ _ := .step (.returns 0) h₄ ⟨nofun, fun _ hs => Option.some.inj hs ▸ nofun⟩ rfl
  have hturns := hall _ _ h₅ _ _ (List.mem_singleton_self _) rfl [_] _ [] rfl
  exact absurd (hturns (by decide) (by decide +kernel)) (by decide)

end

end Wirc
