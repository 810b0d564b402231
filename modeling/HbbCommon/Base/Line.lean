import Mathlib

/-!
# A line with barriers

Items are accepted one after another and stand in a line. An item may be replaced in its
place by one that is accepted later, or removed from the line; what is replaced or removed
is dropped. Some items are barriers: what is accepted before a barrier and not dropped
stands before it, what is accepted after it stands behind it.

`fixed` items are never replaced or removed, and a `stale` item is never replaced: a barrier
is fixed, and makes everything in front of it stale. `Lawful` is kept by each way the line
can change.
-/

namespace HbbCommon.Base

variable {ι : Type*}

/-- Where two places of a line are, relative to each other. -/
theorem append_cons_eq_append_cons {l₁ l₂ x y : List ι} {e b : ι}
    (h : l₁ ++ e :: l₂ = x ++ b :: y) :
    (l₁ = x ∧ e = b ∧ l₂ = y) ∨
      (∃ t, x = l₁ ++ e :: t ∧ l₂ = t ++ b :: y) ∨ ∃ t, l₁ = x ++ b :: t ∧ y = t ++ e :: l₂ := by
  obtain ⟨t, hx, htail⟩ | ⟨t, hl, htail⟩ := List.append_eq_append_iff.mp h
  · cases t with
    | nil =>
        obtain ⟨rfl, rfl⟩ := List.cons.inj htail
        exact .inl ⟨by rw [hx, List.append_nil], rfl, rfl⟩
    | cons a t =>
        obtain ⟨rfl, rfl⟩ := List.cons.inj htail
        exact .inr (.inl ⟨t, hx, rfl⟩)
  · cases t with
    | nil =>
        obtain ⟨rfl, rfl⟩ := List.cons.inj htail
        exact .inl ⟨by rw [hl, List.append_nil], rfl, rfl⟩
    | cons a t =>
        obtain ⟨rfl, rfl⟩ := List.cons.inj htail
        exact .inr (.inr ⟨t, hl, rfl⟩)

/-- The last place of a line, and the places in front of it. -/
theorem concat_eq_append_cons {l x y : List ι} {e b : ι} (h : l ++ [e] = x ++ b :: y) :
    (l = x ∧ e = b ∧ y = []) ∨ ∃ t, l = x ++ b :: t ∧ y = t ++ [e] := by
  obtain ⟨rfl, rfl, rfl⟩ | ⟨t, -, hnil⟩ | ⟨t, rfl, rfl⟩ := append_cons_eq_append_cons h
  · exact .inl ⟨rfl, rfl, rfl⟩
  · exact absurd hnil.symm (List.append_ne_nil_of_right_ne_nil _ (List.cons_ne_nil _ _))
  · exact .inr ⟨t, rfl, rfl⟩

/-- A line with its history. -/
structure Line (ι : Type*) where
  /-- the items in the order they were accepted; `true` marks a barrier -/
  accepted : List (ι × Bool)
  line : List ι
  dropped : List ι

namespace Line

/-- The barrier `b` cuts the line and what was dropped as it cuts what was accepted. -/
def Cut (stale fixed : ι → Prop) (line dropped before after : List ι) (b : ι) : Prop :=
  fixed b ∧ ∃ x y d₁ d₂, line = x ++ b :: y ∧ before.Perm (x ++ d₁) ∧ after.Perm (y ++ d₂) ∧
    dropped.Perm (d₁ ++ d₂) ∧ ∀ e ∈ x, stale e

structure Lawful (stale fixed : ι → Prop) (l : Line ι) : Prop where
  conserved : (l.accepted.map Prod.fst).Perm (l.line ++ l.dropped)
  cut : ∀ before b after, l.accepted = before ++ (b, true) :: after →
    Cut stale fixed l.line l.dropped (before.map Prod.fst) (after.map Prod.fst) b

variable {stale stale' fixed : ι → Prop} {line dropped before after l₁ l₂ : List ι} {b e e' : ι}

theorem Cut.mono (h : Cut stale fixed line dropped before after b)
    (hstale : ∀ e ∈ line, stale e → stale' e) : Cut stale' fixed line dropped before after b := by
  obtain ⟨hb, x, y, d₁, d₂, rfl, hbefore, hafter, hdropped, hx⟩ := h
  exact ⟨hb, x, y, d₁, d₂, rfl, hbefore, hafter, hdropped,
    fun e he => hstale e (List.mem_append_left _ he) (hx e he)⟩

theorem Cut.append (h : Cut stale fixed line dropped before after b) (e : ι) :
    Cut stale fixed (line ++ [e]) dropped before (after ++ [e]) b := by
  obtain ⟨hb, x, y, d₁, d₂, rfl, hbefore, hafter, hdropped, hx⟩ := h
  refine ⟨hb, x, y ++ [e], d₁, d₂, by simp, hbefore, ?_, hdropped, hx⟩
  rw [← Multiset.coe_eq_coe] at hafter ⊢
  simp only [← Multiset.coe_add] at hafter ⊢
  rw [hafter]
  abel

/-- An item that is replaced stands behind every barrier. -/
theorem Cut.replace (h : Cut stale fixed (l₁ ++ e :: l₂) dropped before after b)
    (hstale : ¬ stale e) (hfixed : ¬ fixed e) (e' : ι) :
    Cut stale fixed (l₁ ++ e' :: l₂) (dropped ++ [e]) before (after ++ [e']) b := by
  obtain ⟨hb, x, y, d₁, d₂, hline, hbefore, hafter, hdropped, hx⟩ := h
  obtain ⟨-, rfl, -⟩ | ⟨t, rfl, -⟩ | ⟨t, rfl, rfl⟩ := append_cons_eq_append_cons hline
  · exact absurd hb hfixed
  · exact absurd (hx e (List.mem_append_right _ List.mem_cons_self)) hstale
  · refine ⟨hb, x, t ++ e' :: l₂, d₁, d₂ ++ [e], by simp, hbefore, ?_, ?_, hx⟩
    · rw [← Multiset.coe_eq_coe] at hafter ⊢
      simp only [← Multiset.coe_add, ← Multiset.cons_coe, ← Multiset.singleton_add] at hafter ⊢
      rw [hafter]
      abel
    · rw [← List.append_assoc]
      exact hdropped.append_right _

theorem Cut.remove (h : Cut stale fixed (l₁ ++ e :: l₂) dropped before after b)
    (hfixed : ¬ fixed e) : Cut stale fixed (l₁ ++ l₂) (dropped ++ [e]) before after b := by
  obtain ⟨hb, x, y, d₁, d₂, hline, hbefore, hafter, hdropped, hx⟩ := h
  rw [← Multiset.coe_eq_coe] at hbefore hafter hdropped
  simp only [← Multiset.coe_add] at hbefore hafter hdropped
  obtain ⟨-, rfl, -⟩ | ⟨t, rfl, rfl⟩ | ⟨t, rfl, rfl⟩ := append_cons_eq_append_cons hline
  · exact absurd hb hfixed
  · refine ⟨hb, l₁ ++ t, y, d₁ ++ [e], d₂, by simp, ?_, ?_, ?_, ?_⟩
    · rw [← Multiset.coe_eq_coe]
      simp only [← Multiset.coe_add, ← Multiset.cons_coe, ← Multiset.singleton_add] at hbefore ⊢
      rw [hbefore]
      simp only [Multiset.coe_nil]
      abel
    · rw [← Multiset.coe_eq_coe]
      simpa only [← Multiset.coe_add] using hafter
    · rw [← Multiset.coe_eq_coe]
      simp only [← Multiset.coe_add]
      rw [hdropped]
      abel
    · intro a ha
      refine hx a ?_
      obtain ha | ha := List.mem_append.mp ha
      · exact List.mem_append_left _ ha
      · exact List.mem_append_right _ (List.mem_cons_of_mem _ ha)
  · refine ⟨hb, x, t ++ l₂, d₁, d₂ ++ [e], by simp, ?_, ?_, ?_, hx⟩
    · rw [← Multiset.coe_eq_coe]
      simpa only [← Multiset.coe_add] using hbefore
    · rw [← Multiset.coe_eq_coe]
      simp only [← Multiset.coe_add, ← Multiset.cons_coe, ← Multiset.singleton_add] at hafter ⊢
      rw [hafter]
      simp only [Multiset.coe_nil]
      abel
    · rw [← Multiset.coe_eq_coe]
      simp only [← Multiset.coe_add]
      rw [hdropped]
      abel

namespace Lawful

variable {l : Line ι}

theorem empty (stale fixed : ι → Prop) : Lawful stale fixed (⟨[], [], []⟩ : Line ι) where
  conserved := List.Perm.refl _
  cut := fun _ _ _ h => absurd h.symm (List.append_ne_nil_of_right_ne_nil _ (List.cons_ne_nil _ _))

theorem mono (h : Lawful stale fixed l) (hstale : ∀ e ∈ l.line, stale e → stale' e) :
    Lawful stale' fixed l where
  conserved := h.conserved
  cut := fun before b after heq => (h.cut before b after heq).mono hstale

theorem conserved_append (h : Lawful stale fixed l) (e : ι) (mark : Bool) :
    ((l.accepted ++ [(e, mark)]).map Prod.fst).Perm (l.line ++ [e] ++ l.dropped) := by
  have hconserved := h.conserved
  rw [← Multiset.coe_eq_coe] at hconserved ⊢
  rw [List.map_append, List.map_singleton]
  simp only [← Multiset.coe_add] at hconserved ⊢
  rw [hconserved]
  abel

/-- A new item at the end of the line. -/
theorem append (h : Lawful stale fixed l) (e : ι) :
    Lawful stale fixed
      { l with accepted := l.accepted ++ [(e, false)], line := l.line ++ [e] } where
  conserved := h.conserved_append e false
  cut := by
    intro before b after heq
    obtain ⟨-, hmark, -⟩ | ⟨t, hacc, rfl⟩ := concat_eq_append_cons heq
    · cases hmark
    · rw [List.map_append, List.map_singleton]
      exact (h.cut before b t hacc).append e

/-- A new barrier at the end of the line: what is in front of it is stale from now on. -/
theorem barrier (h : Lawful stale fixed l) (hstale : ∀ e ∈ l.line, stale' e) {b : ι}
    (hb : fixed b) :
    Lawful stale' fixed
      { l with accepted := l.accepted ++ [(b, true)], line := l.line ++ [b] } where
  conserved := h.conserved_append b true
  cut := by
    intro before b' after heq
    obtain ⟨rfl, hmark, rfl⟩ | ⟨t, hacc, rfl⟩ := concat_eq_append_cons heq
    · cases hmark
      exact ⟨hb, l.line, [], l.dropped, [], rfl, h.conserved, List.Perm.refl _, by simp, hstale⟩
    · rw [List.map_append, List.map_singleton]
      exact ((h.cut before b' t hacc).mono (fun e he _ => hstale e he)).append b

/-- A new item in the place of an older one. -/
theorem replace {accepted : List (ι × Bool)}
    (h : Lawful stale fixed ⟨accepted, l₁ ++ e :: l₂, dropped⟩)
    (hstale : ¬ stale e) (hfixed : ¬ fixed e) (e' : ι) :
    Lawful stale fixed ⟨accepted ++ [(e', false)], l₁ ++ e' :: l₂, dropped ++ [e]⟩ where
  conserved := by
    have hconserved := h.conserved
    rw [← Multiset.coe_eq_coe] at hconserved ⊢
    rw [List.map_append, List.map_singleton]
    simp only [← Multiset.coe_add, ← Multiset.cons_coe, ← Multiset.singleton_add] at hconserved ⊢
    rw [hconserved]
    abel
  cut := by
    intro before b after heq
    obtain ⟨-, hmark, -⟩ | ⟨t, hacc, rfl⟩ := concat_eq_append_cons heq
    · cases hmark
    · rw [List.map_append, List.map_singleton]
      exact (h.cut before b t hacc).replace hstale hfixed e'

theorem remove {accepted : List (ι × Bool)}
    (h : Lawful stale fixed ⟨accepted, l₁ ++ e :: l₂, dropped⟩)
    (hfixed : ¬ fixed e) : Lawful stale fixed ⟨accepted, l₁ ++ l₂, dropped ++ [e]⟩ where
  conserved := by
    have hconserved := h.conserved
    rw [← Multiset.coe_eq_coe] at hconserved ⊢
    simp only [← Multiset.coe_add, ← Multiset.cons_coe, ← Multiset.singleton_add] at hconserved ⊢
    rw [hconserved]
    simp only [Multiset.coe_nil]
    abel
  cut := fun before b after heq => (h.cut before b after heq).remove hfixed

/-- Items that are not kept are removed from the end of the line on. -/
theorem filter {accepted : List (ι × Bool)} (keep : ι → Bool)
    (h : Lawful stale fixed ⟨accepted, l₁ ++ l₂, dropped⟩)
    (hfixed : ∀ e ∈ l₂, keep e = false → ¬ fixed e) :
    Lawful stale fixed
      ⟨accepted, l₁ ++ l₂.filter keep, dropped ++ l₂.filter (fun e => !keep e)⟩ := by
  induction l₂ generalizing l₁ dropped with
  | nil => simpa using h
  | cons e l₂ ih =>
      have hrest := fun a ha => hfixed a (List.mem_cons_of_mem _ ha)
      cases hkeep : keep e with
      | true =>
          have hsplit : Lawful stale fixed ⟨accepted, (l₁ ++ [e]) ++ l₂, dropped⟩ := by
            simpa using h
          have htail := ih hsplit hrest
          simpa [hkeep] using htail
      | false =>
          have htail := ih (h.remove (hfixed e List.mem_cons_self hkeep)) hrest
          simpa [hkeep] using htail

end Lawful

end Line

end HbbCommon.Base
