/-
# Writes that name what they replace

Values under keys, which anyone may read. A write carries the tag of the value its
writer read, and takes effect where the present value has that tag. Tags are taken
from values, so a tag may come back after others. Where tags tell apart the values
that are written, a write that takes effect still replaces the value it was
computed from, and what every write keeps of that value is never lost.
-/

import Mathlib.Data.Set.Function
import Mathlib.Logic.Relation

namespace MbxCache.Foundation.CompareAndSet

variable {Client Key Value Tag Item : Type}

/-- The values, and what each client read last. -/
structure Shared (Client Key Value : Type) where
  held : Key → Option Value
  seen : Client → Option (Key × Option Value)

namespace Shared

/-- What the value under a key contains. -/
def items (s : Shared Client Key Value) (contents : Value → Set Item) (key : Key) : Set Item :=
  { item | ∃ value, s.held key = some value ∧ item ∈ contents value }

/-- Only values of the set are there or were read. -/
structure Within (values : Set Value) (s : Shared Client Key Value) : Prop where
  held : ∀ key value, s.held key = some value → value ∈ values
  seen : ∀ client key value, s.seen client = some (key, some value) → value ∈ values

/-- A write of a client goes where the client read, and keeps what it read there. -/
structure Writes (contents : Value → Set Item) (s : Shared Client Key Value) (client : Client)
    (key : Key) (base : Option Value) (value : Value) : Prop where
  seen : s.seen client = some (key, base)
  keeps : ∀ read, base = some read → contents read ⊆ contents value

/-- The tag of a write that takes effect is the one of the value it was computed
from, so that value is the one that is there. -/
theorem Within.held_eq {tag : Value → Tag} {values : Set Value} {s : Shared Client Key Value}
    (h : s.Within values) (htag : Set.InjOn tag values) {client : Client}
    {key : Key} {base : Option Value} (hseen : s.seen client = some (key, base))
    (hcurrent : (s.held key).map tag = base.map tag) : s.held key = base := by
  cases hheld : s.held key with
  | none =>
      rw [hheld] at hcurrent
      exact (Option.map_eq_none_iff.mp hcurrent.symm).symm
  | some present =>
      rw [hheld] at hcurrent
      obtain ⟨read, rfl, htags⟩ := Option.map_eq_some_iff.mp hcurrent.symm
      apply congrArg some
      apply htag (h.held key present hheld) (h.seen client key read hseen)
      exact htags.symm

end Shared

variable [DecidableEq Client] [DecidableEq Key]

/-- One step: a read, a write whose tag is the present one, or nothing. -/
inductive Step (tag : Value → Tag) (contents : Value → Set Item) (values : Set Value)
    (s : Shared Client Key Value) : Shared Client Key Value → Prop where
  | read (client : Client) (key : Key) :
      Step tag contents values s
        { s with seen := Function.update s.seen client (some (key, s.held key)) }
  | write (client : Client) (key : Key) (base : Option Value) (value : Value)
      (allowed : value ∈ values) (writes : s.Writes contents client key base value)
      (current : (s.held key).map tag = base.map tag) :
      Step tag contents values s
        { s with held := Function.update s.held key (some value) }
  | idle : Step tag contents values s s

section

variable {tag : Value → Tag} {contents : Value → Set Item} {values : Set Value}
  {s t : Shared Client Key Value}

theorem Step.within (h : s.Within values) (hstep : Step tag contents values s t) :
    t.Within values := by
  cases hstep with
  | idle => exact h
  | read client key =>
      refine ⟨h.held, ?_⟩
      intro other key' value hseen
      dsimp only at hseen
      by_cases hclient : other = client
      · subst hclient
        rw [Function.update_self] at hseen
        obtain ⟨rfl, hheld⟩ := Prod.mk.inj (Option.some.inj hseen)
        exact h.held key value hheld
      · rw [Function.update_of_ne hclient] at hseen
        exact h.seen other key' value hseen
  | write client key base value allowed writes current =>
      refine ⟨?_, h.seen⟩
      intro other value' hheld
      dsimp only at hheld
      by_cases hkey : other = key
      · subst hkey
        rw [Function.update_self] at hheld
        exact Option.some.inj hheld ▸ allowed
      · rw [Function.update_of_ne hkey] at hheld
        exact h.held other value' hheld

/-- One step loses nothing. -/
theorem Step.grows (h : s.Within values) (htag : Set.InjOn tag values)
    (hstep : Step tag contents values s t) (key : Key) :
    s.items contents key ⊆ t.items contents key := by
  cases hstep with
  | idle => exact Set.Subset.rfl
  | read client key' => exact Set.Subset.rfl
  | write client key' base value allowed writes current =>
      rintro item ⟨present, hpresent, hitem⟩
      by_cases hkey : key = key'
      · subst hkey
        have hbase := h.held_eq htag writes.seen current
        refine ⟨value, Function.update_self .., ?_⟩
        apply writes.keeps present _ hitem
        rw [← hbase, hpresent]
      · refine ⟨present, ?_, hitem⟩
        show Function.update s.held key' (some value) key = some present
        rw [Function.update_of_ne hkey, hpresent]

/-- Nor does a run. -/
theorem grows_of_run (htag : Set.InjOn tag values)
    (hrun : Relation.ReflTransGen (Step tag contents values) s t) (h : s.Within values) :
    t.Within values ∧ ∀ key, s.items contents key ⊆ t.items contents key := by
  induction hrun with
  | refl => exact ⟨h, fun key => Set.Subset.rfl⟩
  | tail hearlier hstep ih =>
      obtain ⟨hwithin, hgrows⟩ := ih
      refine ⟨hstep.within hwithin, fun key => ?_⟩
      exact (hgrows key).trans (hstep.grows hwithin htag key)

end

end MbxCache.Foundation.CompareAndSet
