import Mathlib

/-!
# Memoised calls

A cache keeps the value of a function under a key of its argument. Two arguments may have
one key; the cache cannot be seen in the answers exactly when such arguments have one value.
-/

namespace HbbCommon.Base.Memo

variable {α κ β : Type} [DecidableEq κ] (key : α → κ) (f : α → β)

/-- A call looks its key up, and keeps what it computes. -/
def call (cache : κ → Option β) (a : α) : β × (κ → Option β) :=
  match cache (key a) with
  | some b => (b, cache)
  | none => (f a, Function.update cache (key a) (some (f a)))

def answers : (κ → Option β) → List α → List β
  | _, [] => []
  | cache, a :: as => (call key f cache a).1 :: answers (call key f cache a).2 as

variable {key f}

theorem call_of_some {cache : κ → Option β} {a : α} {b : β} (h : cache (key a) = some b) :
    call key f cache a = (b, cache) := by
  unfold call
  rw [h]

theorem call_of_none {cache : κ → Option β} {a : α} (h : cache (key a) = none) :
    call key f cache a = (f a, Function.update cache (key a) (some (f a))) := by
  unfold call
  rw [h]

/-- Every call is answered with its own value when what is cached under its key is that
value, and calls with one key have one value. -/
theorem answers_eq_map_iff (cache : κ → Option β) (as : List α) :
    answers key f cache as = as.map f ↔
      (∀ a ∈ as, ∀ b, cache (key a) = some b → b = f a) ∧
        as.Pairwise (fun a b => key a = key b → f a = f b) := by
  induction as generalizing cache with
  | nil => simp [answers]
  | cons a as ih =>
      rw [answers, List.map_cons, List.cons.injEq, ih, List.pairwise_cons, List.forall_mem_cons]
      cases hget : cache (key a) with
      | some b =>
          rw [call_of_some hget]
          constructor
          · rintro ⟨rfl, hcached, hrest⟩
            refine ⟨⟨fun b' hb' => (Option.some.inj hb').symm, hcached⟩, fun a' ha' hkey => ?_, hrest⟩
            exact hcached a' ha' (f a) (hkey ▸ hget)
          · rintro ⟨⟨hfirst, hcached⟩, -, hrest⟩
            exact ⟨hfirst b rfl, hcached, hrest⟩
      | none =>
          rw [call_of_none hget]
          dsimp only
          constructor
          · rintro ⟨-, hcached, hrest⟩
            refine ⟨⟨fun b' hb' => ?_, fun a' ha' b' hb' => ?_⟩, fun a' ha' hkey => ?_, hrest⟩
            · cases hb'
            · -- what is cached under another key is still cached
              have hkey : key a' ≠ key a := by
                intro hkey
                rw [hkey, hget] at hb'
                cases hb'
              exact hcached a' ha' b' (by rw [Function.update_of_ne hkey]; exact hb')
            · exact hcached a' ha' (f a) (by rw [← hkey, Function.update_self])
          · rintro ⟨⟨-, hcached⟩, hfirst, hrest⟩
            refine ⟨rfl, fun a' ha' b' hb' => ?_, hrest⟩
            by_cases hkey : key a' = key a
            · rw [hkey, Function.update_self] at hb'
              rw [← Option.some.inj hb']
              exact hfirst a' ha' hkey.symm
            · rw [Function.update_of_ne hkey] at hb'
              exact hcached a' ha' b' hb'

/-- From an empty cache. -/
theorem answers_empty_eq_map_iff (as : List α) :
    answers key f (fun _ => none) as = as.map f ↔
      as.Pairwise (fun a b => key a = key b → f a = f b) := by
  rw [answers_eq_map_iff]
  simp

end HbbCommon.Base.Memo
