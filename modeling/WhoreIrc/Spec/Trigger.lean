import WhoreIrc.Framework.Run
import WhoreIrc.Impl.Trigger

/-!
# A list of triggers that is right

`TriggersOk`: the list is linked, counted, sorted without case and without two equal
names, and each option leads to its trigger.
-/

namespace Wirc

open Framework

/-- What changes the list. -/
inductive TriggerOp
  | new (newTrigger : Addr) (name : Str)
  | rename (trigger : Addr) (name : Str)
  | free (trigger : Addr)

/-- No caller has a pointer to a trigger that is not there. -/
def triggerStep (state : Triggers) : TriggerOp → Option Triggers
  | .new newTrigger name => triggerNewWithOptions state newTrigger name
  | .rename trigger name =>
    if (state.memory trigger).isSome then (triggerRename state trigger name).map Prod.snd else some state
  | .free trigger => if (state.memory trigger).isSome then triggerFree state trigger else some state

/-- No triggers. -/
def triggersInit : Triggers := ⟨fun _ => none, ⟨none, none⟩, 0⟩

/-- The list is linked, counted, sorted and without two equal names. -/
structure TriggersLinked (state : Triggers) (triggers : List (Addr × Trigger)) : Prop where
  linked : Lists state.memory fun _ : Unit => triggers
  only : ∀ a, (state.memory a).isSome = true → a ∈ addrs triggers
  ends : state.ends = endsOf triggers
  count : state.triggersCount = triggers.length
  valid : ∀ x ∈ triggers, triggerNameValid x.2.name = true
  sorted : triggers.Pairwise fun x y => stringStrcasecmp x.2.name y.2.name ≤ 0
  distinct : triggers.Pairwise fun x y => stringStrcasecmp x.2.name y.2.name ≠ 0

/-- Each option of a trigger leads to it. -/
def OptionsLead (state : Triggers) (x : Addr × Trigger) : Prop :=
  ∀ option ∈ triggerOptionString, triggerSearchWithOption state (triggerOptionName x.2.name option) = some (some x.1)

def TriggersOk (state : Triggers) : Prop :=
  ∃ triggers, TriggersLinked state triggers ∧ ∀ x ∈ triggers, OptionsLead state x

/-- No byte is the first one of a character of several bytes. -/
def OneByteChars (name : Str) : Prop := ∀ b ∈ name, utf8LeadSize b = 1

instance (name : Str) : Decidable (OneByteChars name) := inferInstanceAs (Decidable (∀ b ∈ name, utf8LeadSize b = 1))

/-- A name that is given to a trigger has only characters of one byte. -/
def GivesOneByteChars (state : Triggers) : TriggerOp → Prop
  | .new newTrigger name =>
    triggerNameValid name = true ∧ triggerSearch state name = some none ∧ state.memory newTrigger = none → OneByteChars name
  | .rename trigger name =>
    triggerNameValid name = true ∧ triggerSearch state name = some none ∧ (state.memory trigger).isSome = true →
      OneByteChars name
  | .free _ => True

end Wirc
