import Mathlib

/-!
# Guarded transition systems

A system is a state type with an initial state and a partial step function:
`step s a = none` when action `a` is not enabled in `s`. Nondeterminism is in
the choice of actions, so a run is a list of actions and one interleaving of
several tasks is one list.

`Reach G s` is reachability by steps that all satisfy the guard `G`. A guard
states what the environment promises, or what keeps a run away from a defect;
`Reach (fun _ _ => True)` is plain reachability. `Reach.invariant` is the only
induction principle the developments over it need.
-/

namespace HbbCommon.Base

/-- A transition system with partial, deterministic actions. -/
structure TSys (σ : Type*) (α : Type*) where
  init : σ
  step : σ → α → Option σ

namespace TSys

variable {σ α : Type*} (M : TSys σ α)

/-- Run a list of actions, failing at the first one that is not enabled. -/
def runFrom (s : σ) : List α → Option σ
  | [] => some s
  | a :: as => (M.step s a).bind (fun t => runFrom t as)

/-- Run a list of actions from the initial state. -/
def run (as : List α) : Option σ := M.runFrom M.init as

/-- Reachability by steps that satisfy the guard `G`. -/
inductive Reach (G : σ → α → Prop) : σ → Prop
  | init : Reach G M.init
  | step {s a t} : Reach G s → G s a → M.step s a = some t → Reach G t

variable {M}

/-- A property of the initial state that every guarded step keeps holds in
every state reached by guarded steps. -/
theorem Reach.invariant {G : σ → α → Prop} {I : σ → Prop} (hinit : I M.init)
    (hstep : ∀ s a t, I s → G s a → M.step s a = some t → I t) {s : σ}
    (h : M.Reach G s) : I s := by
  induction h with
  | init => exact hinit
  | step _ hg hs ih => exact hstep _ _ _ ih hg hs

theorem Reach.mono {G H : σ → α → Prop} (hGH : ∀ s a, G s a → H s a) {s : σ}
    (h : M.Reach G s) : M.Reach H s :=
  h.invariant .init (fun _ _ _ ih hg hs => ih.step (hGH _ _ hg) hs)

/-- Every action of the list satisfies the guard in the state it is taken in. -/
def Follows (M : TSys σ α) (G : σ → α → Prop) : σ → List α → Prop
  | _, [] => True
  | s, a :: as => G s a ∧ ∀ t, M.step s a = some t → Follows M G t as

theorem Reach.runFrom {G : σ → α → Prop} {s t : σ} {as : List α} (h : M.Reach G s)
    (hf : M.Follows G s as) (hrun : M.runFrom s as = some t) : M.Reach G t := by
  induction as generalizing s with
  | nil => cases hrun; exact h
  | cons a as ih =>
      obtain ⟨hg, hrest⟩ := hf
      obtain ⟨u, hu, hut⟩ := Option.bind_eq_some_iff.mp hrun
      exact ih (h.step hg hu) (hrest u hu) hut

/-- A run from the initial state whose actions follow the guard ends in a
reached state. -/
theorem reach_of_run {G : σ → α → Prop} {t : σ} (as : List α)
    (hf : M.Follows G M.init as) (hrun : M.run as = some t) : M.Reach G t :=
  Reach.init.runFrom hf hrun

theorem Follows.of_forall {G : σ → α → Prop} (hG : ∀ s a, G s a) :
    ∀ (s : σ) (as : List α), M.Follows G s as
  | _, [] => trivial
  | s, a :: as => ⟨hG s a, fun t _ => Follows.of_forall hG t as⟩

/-- Without a guard every run ends in a reached state. -/
theorem reach_of_any_run {t : σ} (as : List α) (hrun : M.run as = some t) :
    M.Reach (fun _ _ => True) t :=
  reach_of_run as (Follows.of_forall (fun _ _ => trivial) _ as) hrun

theorem runFrom_append (s : σ) (as bs : List α) :
    M.runFrom s (as ++ bs) = (M.runFrom s as).bind (fun t => M.runFrom t bs) := by
  induction as generalizing s with
  | nil => rfl
  | cons a as ih =>
      simp only [List.cons_append, TSys.runFrom]
      cases M.step s a with
      | none => rfl
      | some t => exact ih t

/-- A state that is reached under a guard on the actions is the end of a run of such
actions. -/
theorem Reach.exists_run {G : α → Prop} {s : σ} (h : M.Reach (fun _ a => G a) s) :
    ∃ as : List α, (∀ a ∈ as, G a) ∧ M.run as = some s := by
  induction h with
  | init => exact ⟨[], by simp, rfl⟩
  | @step s a t _ hg hs ih =>
      obtain ⟨as, has, hrun⟩ := ih
      refine ⟨as ++ [a], ?_, ?_⟩
      · intro b hb
        rcases List.mem_append.mp hb with hb | hb
        · exact has b hb
        · rw [List.mem_singleton.mp hb]
          exact hg
      · have hrun : M.runFrom M.init as = some s := hrun
        rw [TSys.run, runFrom_append, hrun, Option.bind_some, TSys.runFrom, hs]
        rfl

/-- Where every step keeps `I` exactly when the guard holds, a run keeps `I` all along exactly
when it follows the guard. -/
theorem follows_iff {G : σ → α → Prop} {I : σ → Prop} (htotal : ∀ s a, ∃ t, M.step s a = some t)
    (hstep : ∀ s a t, I s → M.step s a = some t → (I t ↔ G s a)) {s : σ} (hs : I s)
    (as : List α) :
    M.Follows G s as ↔ ∀ before t, before <+: as → M.runFrom s before = some t → I t := by
  induction as generalizing s with
  | nil =>
      refine ⟨fun _ before t hprefix hrun => ?_, fun _ => trivial⟩
      rw [List.prefix_nil.mp hprefix] at hrun
      cases hrun
      exact hs
  | cons a as ih =>
      obtain ⟨u, hu⟩ := htotal s a
      constructor
      · rintro ⟨hg, hrest⟩ before t hprefix hrun
        cases before with
        | nil =>
            cases hrun
            exact hs
        | cons b before =>
            obtain ⟨rfl, hbefore⟩ := List.cons_prefix_cons.mp hprefix
            rw [TSys.runFrom, hu, Option.bind_some] at hrun
            exact (ih ((hstep s b u hs hu).mpr hg)).mp (hrest u hu) before t hbefore hrun
      · intro hall
        have hiu : I u := hall [a] u (by simp) (by rw [TSys.runFrom, hu]; rfl)
        refine ⟨(hstep s a u hs hu).mp hiu, fun t ht => ?_⟩
        rw [hu] at ht
        cases ht
        refine (ih hiu).mpr (fun before t hbefore hrun => ?_)
        refine hall (a :: before) t (List.cons_prefix_cons.mpr ⟨rfl, hbefore⟩) ?_
        rw [TSys.runFrom, hu, Option.bind_some]
        exact hrun

instance Follows.decidable (G : σ → α → Prop) [∀ s a, Decidable (G s a)] :
    ∀ (s : σ) (as : List α), Decidable (M.Follows G s as)
  | _, [] => .isTrue trivial
  | s, a :: as =>
      let rest : Decidable (∀ t, M.step s a = some t → M.Follows G t as) :=
        match h : M.step s a with
        | none => .isTrue (fun t ht => by cases ht)
        | some u =>
            match Follows.decidable G u as with
            | .isTrue hu => .isTrue (fun t ht => by cases ht; exact hu)
            | .isFalse hu => .isFalse (fun hall => hu (hall u rfl))
      inferInstanceAs (Decidable (G s a ∧ _))

end TSys

end HbbCommon.Base
