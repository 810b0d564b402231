import Mathlib

/-!
# Service by virtual finish time

An abstract scheduler over arbitrary keys. Each waiting entry has a *start*, the
virtual time at which its key began to wait, and a *cost*; its virtual finish is
the sum. The entry with the least finish is served and the virtual time moves up
to it. Rewriting an entry changes its cost and keeps its start.

`Run.served_le` is the fairness bound: while one key waits without its start
being reset, every other key is served at most twice the largest cost. The proof
is an account (`Ledger`) of what the other key was served against how far the
virtual time, or that key's own start, has moved past the waiting key's start.
-/

namespace HbbCommon.Base.FairShare

variable {ι : Type*} [DecidableEq ι]

/-- A waiting entry: when it began to wait and what it costs. -/
structure Entry where
  start : Nat
  cost : Nat

/-- Virtual finish time. -/
def Entry.finish (e : Entry) : Nat := e.start + e.cost

structure State (ι : Type*) where
  time : Nat
  entries : ι → Option Entry

/-- One scheduler step, labelled with the key and cost it serves. -/
inductive Step (B : Nat) : State ι → Option (ι × Nat) → State ι → Prop
  | skip {s} : Step B s none s
  | enter {s k c} : s.entries k = none → c ≤ B →
      Step B s none { s with entries := Function.update s.entries k (some ⟨s.time, c⟩) }
  | rewrite {s k e c} : s.entries k = some e → c ≤ B →
      Step B s none { s with entries := Function.update s.entries k (some ⟨e.start, c⟩) }
  | drop {s entries} : (∀ k e, entries k = some e → s.entries k = some e) →
      Step B s none { s with entries := entries }
  | serve {s k e} : s.entries k = some e →
      (∀ j f, s.entries j = some f → e.finish ≤ f.finish) →
      Step B s (some (k, e.cost))
        { time := max s.time e.finish, entries := Function.update s.entries k none }

/-- What a label serves to key `j`. -/
def servedTo (j : ι) : Option (ι × Nat) → Nat
  | none => 0
  | some (k, c) => if k = j then c else 0

/-- Key `i` waits, with start `V`. -/
def Waits (i : ι) (V : Nat) (s : State ι) : Prop :=
  ∃ e, s.entries i = some e ∧ e.start = V

/-- A run in whose every state key `i` waits with start `V`; the last index is
what it serves to key `j`. -/
inductive Run (B : Nat) (i j : ι) (V : Nat) : State ι → State ι → Nat → Prop
  | nil {s} : Waits i V s → Run B i j V s s 0
  | step {s t u served label} : Run B i j V s t served → Step B t label u → Waits i V u →
      Run B i j V s u (served + servedTo j label)

/-- Every start is in the past and every cost within the bound. -/
structure Wf (B : Nat) (s : State ι) : Prop where
  start_le : ∀ k e, s.entries k = some e → e.start ≤ s.time
  cost_le : ∀ k e, s.entries k = some e → e.cost ≤ B

theorem Step.time_le {B : Nat} {s t : State ι} {label : Option (ι × Nat)}
    (h : Step B s label t) : s.time ≤ t.time := by
  cases h with
  | serve => exact Nat.le_max_left _ _
  | _ => exact Nat.le_refl _

/-- An entry after a step was there before, or has a cost within the bound and
a start that is now or was there before. -/
theorem Step.entry_cases {B : Nat} {s t : State ι} {label : Option (ι × Nat)}
    (h : Step B s label t) {k : ι} {e : Entry} (he : t.entries k = some e) :
    s.entries k = some e ∨
      (e.cost ≤ B ∧ (e.start = s.time ∨ ∃ f, s.entries k = some f ∧ e.start = f.start)) := by
  cases h with
  | skip => exact .inl he
  | @enter k' c _ hc =>
      by_cases hk : k = k'
      · subst hk
        simp only [Function.update_self, Option.some.injEq] at he
        subst he
        exact .inr ⟨hc, .inl rfl⟩
      · exact .inl (by simpa [hk] using he)
  | @rewrite k' f c hget hc =>
      by_cases hk : k = k'
      · subst hk
        simp only [Function.update_self, Option.some.injEq] at he
        subst he
        exact .inr ⟨hc, .inr ⟨f, hget, rfl⟩⟩
      · exact .inl (by simpa [hk] using he)
  | drop hsub => exact .inl (hsub k e he)
  | @serve k' f _ _ =>
      by_cases hk : k = k'
      · subst hk
        simp at he
      · exact .inl (by simpa [hk] using he)

theorem Wf.step {B : Nat} {s t : State ι} {label : Option (ι × Nat)} (hwf : Wf B s)
    (h : Step B s label t) : Wf B t := by
  have htime := h.time_le
  constructor
  · intro k e he
    rcases h.entry_cases he with hold | ⟨_, hnow | ⟨f, hf, hstart⟩⟩
    · exact Nat.le_trans (hwf.start_le k e hold) htime
    · omega
    · have := hwf.start_le k f hf
      omega
  · intro k e he
    rcases h.entry_cases he with hold | ⟨hcost, _⟩
    · exact hwf.cost_le k e hold
    · exact hcost

/-- What key `j` may have been served while key `i` waits since `V`: nothing
before an entry of `j` that is older than `V`; otherwise one cost plus the
virtual time elapsed since `V`, up to now or to the start of the entry of `j`. -/
def Account (B : Nat) (j : ι) (V served : Nat) (s : State ι) : Prop :=
  match s.entries j with
  | none => served ≤ B + (s.time - V)
  | some e => if e.start < V then served = 0 else served ≤ B + (e.start - V)

/-- The account of a run, with the bound it keeps. -/
structure Ledger (B : Nat) (i j : ι) (V served : Nat) (s : State ι) : Prop where
  wf : Wf B s
  time_ge : V ≤ s.time
  account : Account B j V served s
  bound : served ≤ 2 * B

omit [DecidableEq ι] in
/-- Removing the entry of `j` leaves the account open up to the present. -/
theorem Ledger.le_elapsed {B : Nat} {i j : ι} {V served : Nat} {s : State ι}
    (h : Ledger B i j V served s) : served ≤ B + (s.time - V) := by
  have hacc := h.account
  unfold Account at hacc
  cases hj : s.entries j with
  | none => simpa [hj] using hacc
  | some e =>
      have hstart := h.wf.start_le j e hj
      simp only [hj] at hacc
      split at hacc
      · omega
      · omega

theorem Ledger.step {B : Nat} {i j : ι} {V served : Nat} {s t : State ι}
    {label : Option (ι × Nat)} (hij : i ≠ j) (h : Ledger B i j V served s)
    (hwait : Waits i V s) (hstep : Step B s label t) :
    Ledger B i j V (served + servedTo j label) t := by
  have hwf := h.wf.step hstep
  have htime := Nat.le_trans h.time_ge hstep.time_le
  have helapsed := h.le_elapsed
  have hbound := h.bound
  have hacc := h.account
  unfold Account at hacc
  cases hstep with
  | skip => exact h
  | @enter k c hnone hc =>
      refine ⟨hwf, htime, ?_, hbound⟩
      unfold Account
      by_cases hk : j = k
      · subst hk
        have := h.time_ge
        simp only [Function.update_self, servedTo, Nat.add_zero]
        split <;> omega
      · simpa [Function.update_of_ne hk, servedTo] using hacc
  | @rewrite k e c hget hc =>
      refine ⟨hwf, htime, ?_, hbound⟩
      unfold Account
      by_cases hk : j = k
      · subst hk
        simpa [servedTo, hget] using hacc
      · simpa [Function.update_of_ne hk, servedTo] using hacc
  | @drop entries hsub =>
      refine ⟨hwf, htime, ?_, hbound⟩
      unfold Account
      cases hj : entries j with
      | none => simpa [servedTo, hj] using helapsed
      | some e => simpa [servedTo, hj, hsub j e hj] using hacc
  | @serve k e hget hmin =>
      by_cases hk : k = j
      · subst hk
        -- the waiting key bounds the finish of whatever is served
        obtain ⟨w, hw, hwV⟩ := hwait
        have hfin := hmin i w hw
        have hcost := h.wf.cost_le i w hw
        have hecost := h.wf.cost_le k e hget
        simp only [Entry.finish] at hfin
        simp only [hget] at hacc
        simp only [servedTo, if_true]
        refine ⟨hwf, htime, ?_, ?_⟩
        · unfold Account
          simp only [Function.update_self, Entry.finish]
          split at hacc <;> omega
        · split at hacc <;> omega
      · refine ⟨hwf, htime, ?_, by simpa [servedTo, hk] using hbound⟩
        unfold Account
        have hjk : j ≠ k := fun he => hk he.symm
        simp only [servedTo, hk, if_false, Nat.add_zero, Function.update_of_ne hjk]
        cases hj : s.entries j with
        | none =>
            simp only
            exact Nat.le_trans helapsed (by omega)
        | some f => simpa [hj] using hacc

theorem Run.ledger {B : Nat} {i j : ι} {V served : Nat} {s t : State ι} (hij : i ≠ j)
    (hwf : Wf B s) (h : Run B i j V s t served) :
    Ledger B i j V served t ∧ Waits i V t := by
  induction h with
  | nil hwait =>
      refine ⟨⟨hwf, ?_, ?_, Nat.zero_le _⟩, hwait⟩
      · obtain ⟨e, he, rfl⟩ := hwait
        exact hwf.start_le i e he
      · unfold Account
        split
        · exact Nat.zero_le _
        · split
          · rfl
          · exact Nat.zero_le _
  | step _ hstep hwait ih => exact ⟨ih.1.step hij ih.2 hstep, hwait⟩

/-- **Fairness.** While key `i` waits with one start, every other key is served
at most twice the largest cost. -/
theorem Run.served_le {B : Nat} {i j : ι} {V served : Nat} {s t : State ι} (hij : i ≠ j)
    (hwf : Wf B s) (h : Run B i j V s t served) : served ≤ 2 * B :=
  (h.ledger hij hwf).1.bound

theorem Run.trans {B : Nat} {i j : ι} {V a b : Nat} {s t u : State ι}
    (h1 : Run B i j V s t a) (h2 : Run B i j V t u b) : Run B i j V s u (a + b) := by
  induction h2 with
  | nil _ => exact h1
  | step _ hstep hwait ih =>
      rw [← Nat.add_assoc]
      exact ih.step hstep hwait

end HbbCommon.Base.FairShare
