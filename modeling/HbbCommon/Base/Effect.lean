import Mathlib

/-!
# Computations that fail and keep their effects

A computation runs on a state of type `S` and ends with a result or an error of type `ε`;
what it did before an error stays done. `exec` is a run; `Keeps I x Q` says that every run
keeps the invariant `I`, whichever way it ends, and that a result satisfies `Q`.
-/

namespace HbbCommon.Base

/-- A computation on a state that may fail. -/
abbrev Effect (S ε : Type) := ExceptT ε (StateM S)

namespace Effect

variable {S ε α β : Type}

/-- A run from the state `s`. -/
def exec (x : Effect S ε α) (s : S) : Except ε α × S := x.run.run s

/-- A computation from what it does to a state. -/
def ofFun (f : S → Except ε α × S) : Effect S ε α := ExceptT.mk f

/-- A computation that does not fail. -/
def ofState (f : S → α × S) : Effect S ε α := ofFun (fun s => (.ok (f s).1, (f s).2))

/-- A computation whose failure is a result. -/
def attempt {ε' : Type} (x : Effect S ε α) : Effect S ε' (Except ε α) := ofState x.exec

/-- A computation on a part of the state, whose errors are renamed. -/
def zoom {T ε' : Type} (get : S → T) (set : T → S → S) (error : ε → ε') (x : Effect T ε α) :
    Effect S ε' α :=
  ofFun (fun s => ((x.exec (get s)).1.mapError error, set (x.exec (get s)).2 s))

@[simp] theorem exec_ofFun (f : S → Except ε α × S) (s : S) : (ofFun f).exec s = f s := rfl

@[simp] theorem exec_ofState (f : S → α × S) (s : S) :
    (ofState f : Effect S ε α).exec s = (.ok (f s).1, (f s).2) := rfl

@[simp] theorem exec_attempt {ε' : Type} (x : Effect S ε α) (s : S) :
    (attempt x : Effect S ε' (Except ε α)).exec s = (.ok (x.exec s).1, (x.exec s).2) := rfl

@[simp] theorem exec_zoom {T ε' : Type} (get : S → T) (set : T → S → S) (error : ε → ε')
    (x : Effect T ε α) (s : S) : (zoom get set error x).exec s =
      ((x.exec (get s)).1.mapError error, set (x.exec (get s)).2 s) := rfl

@[simp] theorem exec_pure (a : α) (s : S) : (pure a : Effect S ε α).exec s = (.ok a, s) := rfl

@[simp] theorem exec_throw (e : ε) (s : S) :
    (throw e : Effect S ε α).exec s = (.error e, s) := rfl

@[simp] theorem exec_get (s : S) : (get : Effect S ε S).exec s = (.ok s, s) := rfl

@[simp] theorem exec_modify (f : S → S) (s : S) :
    (modify f : Effect S ε PUnit).exec s = (.ok ⟨⟩, f s) := rfl

theorem exec_bind (x : Effect S ε α) (f : α → Effect S ε β) (s : S) :
    (x >>= f).exec s = match x.exec s with
      | (.ok a, t) => (f a).exec t
      | (.error e, t) => (.error e, t) := by
  show (match (x.run.run s).1 with
    | .ok a => (f a).run
    | .error e => pure (.error e)).run (x.run.run s).2 = _
  unfold exec
  generalize x.run.run s = outcome
  obtain ⟨_ | _, t⟩ := outcome <;> rfl

@[simp] theorem exec_map (f : α → β) (x : Effect S ε α) (s : S) :
    (f <$> x).exec s = ((x.exec s).1.map f, (x.exec s).2) := by
  rw [map_eq_pure_bind, exec_bind]
  split
  all_goals
    rename_i h
    rw [h]
    rfl

theorem exec_bind_ok {x : Effect S ε α} {f : α → Effect S ε β} {s t : S} {a : α}
    (h : x.exec s = (.ok a, t)) : (x >>= f).exec s = (f a).exec t := by
  rw [exec_bind, h]

theorem exec_bind_error {x : Effect S ε α} {f : α → Effect S ε β} {s t : S} {e : ε}
    (h : x.exec s = (.error e, t)) : (x >>= f).exec s = (.error e, t) := by
  rw [exec_bind, h]

/-- A sequence succeeds when its parts do. -/
theorem exec_bind_eq_ok {x : Effect S ε α} {f : α → Effect S ε β} {s u : S} {b : β} :
    (x >>= f).exec s = (.ok b, u) ↔ ∃ a t, x.exec s = (.ok a, t) ∧ (f a).exec t = (.ok b, u) := by
  rw [exec_bind]
  constructor
  · intro h
    split at h
    · rename_i a t heq
      exact ⟨a, t, heq, h⟩
    · cases h
  · rintro ⟨a, t, hx, hf⟩
    rw [hx]
    exact hf

/-- Every run of `x` keeps `I`, whether it ends with a result, which satisfies `Q`, or with
an error. -/
def Keeps (I : S → Prop) (x : Effect S ε α) (Q : α → Prop) : Prop :=
  ∀ s, I s → I (x.exec s).2 ∧ ∀ a, (x.exec s).1 = .ok a → Q a

namespace Keeps

variable {I : S → Prop} {Q : α → Prop} {R : β → Prop}

theorem pure {a : α} (h : Q a) : Keeps I (pure a : Effect S ε α) Q := by
  intro s hs
  refine ⟨hs, fun b hb => ?_⟩
  cases hb
  exact h

theorem throw (e : ε) : Keeps I (throw e : Effect S ε α) Q :=
  fun _ hs => ⟨hs, fun _ hb => by cases hb⟩

theorem bind {x : Effect S ε α} {f : α → Effect S ε β} (hx : Keeps I x Q)
    (hf : ∀ a, Q a → Keeps I (f a) R) : Keeps I (x >>= f) R := by
  intro s hs
  obtain ⟨hmid, hresult⟩ := hx s hs
  rw [exec_bind]
  generalize x.exec s = outcome at hmid hresult
  obtain ⟨e | a, t⟩ := outcome
  · exact ⟨hmid, fun _ hb => by cases hb⟩
  · exact hf a (hresult a rfl) t hmid

theorem mono {Q' : α → Prop} {x : Effect S ε α} (hx : Keeps I x Q) (h : ∀ a, Q a → Q' a) :
    Keeps I x Q' :=
  fun s hs => ⟨(hx s hs).1, fun a ha => h a ((hx s hs).2 a ha)⟩

theorem ite {c : Prop} [Decidable c] {x y : Effect S ε α} (hx : c → Keeps I x Q)
    (hy : ¬ c → Keeps I y Q) : Keeps I (if c then x else y) Q := by
  split
  · exact hx ‹_›
  · exact hy ‹_›

theorem modify {f : S → S} (hf : ∀ s, I s → I (f s)) :
    Keeps I (modify f : Effect S ε PUnit) (fun _ => True) :=
  fun s hs => ⟨hf s hs, fun _ _ => trivial⟩

theorem get : Keeps I (get : Effect S ε S) I := by
  intro s hs
  refine ⟨hs, fun b hb => ?_⟩
  cases hb
  exact hs

theorem attempt {ε' : Type} {x : Effect S ε α} (hx : Keeps I x Q) :
    Keeps I (attempt x : Effect S ε' (Except ε α)) (fun r => ∀ a, r = .ok a → Q a) := by
  intro s hs
  refine ⟨(hx s hs).1, fun r hr a ha => (hx s hs).2 a ?_⟩
  cases hr
  exact ha

/-- A computation on a part of the state keeps what is said of the part. -/
theorem zoom {T ε' : Type} {get : S → T} {set : T → S → S} {error : ε → ε'} {L : T → Prop}
    {x : Effect T ε α} (hx : Keeps L x Q) (hget : ∀ s, I s → L (get s))
    (hset : ∀ s t, I s → L t → I (set t s)) : Keeps I (zoom get set error x) Q := by
  intro s hs
  obtain ⟨hmid, hresult⟩ := hx (get s) (hget s hs)
  refine ⟨hset s _ hs hmid, fun a ha => hresult a ?_⟩
  rw [exec_zoom] at ha
  generalize (x.exec (get s)).1 = outcome at ha ⊢
  cases outcome with
  | error e => cases ha
  | ok b =>
      cases ha
      rfl

end Keeps

/-- From every state of `I`, `x` ends with the result `a` and in a state of `I`. -/
def Returns (I : S → Prop) (x : Effect S ε α) (a : α) : Prop :=
  ∀ s, I s → ∃ t, x.exec s = (.ok a, t) ∧ I t

namespace Returns

variable {I : S → Prop} {a : α} {b : β}

theorem pure : Returns I (pure a : Effect S ε α) a := fun s hs => ⟨s, rfl, hs⟩

theorem bind {x : Effect S ε α} {f : α → Effect S ε β} (hx : Returns I x a)
    (hf : Returns I (f a) b) : Returns I (x >>= f) b := by
  intro s hs
  obtain ⟨t, ht, hmid⟩ := hx s hs
  rw [exec_bind_ok ht]
  exact hf t hmid

theorem ite {c : Prop} [Decidable c] {x y : Effect S ε α} {a' : α} (hx : c → Returns I x a)
    (hy : ¬ c → Returns I y a') : Returns I (if c then x else y) (if c then a else a') := by
  split
  · exact hx ‹_›
  · exact hy ‹_›

end Returns

/-- Every run of `x` ends with a result. -/
def Total (x : Effect S ε α) : Prop := ∀ s, ∃ a, (x.exec s).1 = .ok a

namespace Total

theorem pure (a : α) : Total (pure a : Effect S ε α) := fun _ => ⟨a, rfl⟩

theorem ofState (f : S → α × S) : Total (ofState f : Effect S ε α) := fun s => ⟨(f s).1, rfl⟩

theorem attempt {ε' : Type} (x : Effect S ε α) : Total (attempt x : Effect S ε' (Except ε α)) :=
  fun s => ⟨(x.exec s).1, rfl⟩

theorem modify (f : S → S) : Total (modify f : Effect S ε PUnit) := fun _ => ⟨⟨⟩, rfl⟩

theorem bind {x : Effect S ε α} {f : α → Effect S ε β} (hx : Total x) (hf : ∀ a, Total (f a)) :
    Total (x >>= f) := by
  intro s
  obtain ⟨a, ha⟩ := hx s
  rw [exec_bind]
  generalize x.exec s = outcome at ha
  obtain ⟨result, t⟩ := outcome
  cases ha
  exact hf a t

theorem ite {c : Prop} [Decidable c] {x y : Effect S ε α} (hx : Total x) (hy : Total y) :
    Total (if c then x else y) := by
  split
  · exact hx
  · exact hy

theorem zoom {T ε' : Type} {get : S → T} {set : T → S → S} {error : ε → ε'} {x : Effect T ε α}
    (hx : Total x) : Total (zoom get set error x) := by
  intro s
  obtain ⟨a, ha⟩ := hx (get s)
  exact ⟨a, by rw [exec_zoom, ha]; rfl⟩

end Total

end Effect

end HbbCommon.Base
