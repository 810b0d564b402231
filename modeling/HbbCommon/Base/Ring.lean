import Mathlib

/-!
# Rings of slots

A ring writes at a moving slot and wraps around at its capacity. `RingOf c slots next len
recent` says that the slots of a ring of capacity `c` hold `recent`, newest first: while
the ring fills they stand at its front, and in a full ring the slots from `next` on are
the older ones. Writing keeps the newest `c` values; what is read through the first `len`
slots is `recent` in another order.
-/

namespace HbbCommon.Base

variable {α : Type*}

inductive RingOf (c : Nat) : List α → Nat → Nat → List α → Prop
  | filling (recent rest : List α) (hlength : recent.length < c)
      (hslots : (recent.reverse ++ rest).length = c) :
      RingOf c (recent.reverse ++ rest) recent.length recent.length recent
  | full (newer older : List α) (hlength : newer.length < c)
      (hslots : (newer ++ older).length = c) :
      RingOf c (newer.reverse ++ older.reverse) newer.length c (newer ++ older)

namespace RingOf

variable {c : Nat} {slots recent : List α} {next len : Nat}

/-- A ring is emptied by its two counters. -/
theorem empty (hc : 0 < c) (hslots : slots.length = c) : RingOf c slots 0 0 [] :=
  .filling [] slots hc hslots

theorem length_slots (h : RingOf c slots next len recent) : slots.length = c := by
  cases h with
  | filling _ _ _ hslots => exact hslots
  | full _ _ _ hslots => simpa using hslots

theorem next_lt (h : RingOf c slots next len recent) : next < c := by
  cases h with
  | filling _ _ hlength _ => exact hlength
  | full _ _ hlength _ => exact hlength

theorem length_recent (h : RingOf c slots next len recent) : recent.length = len := by
  cases h with
  | filling _ _ _ _ => rfl
  | full _ _ _ hslots => exact hslots

theorem len_le (h : RingOf c slots next len recent) : len ≤ c := by
  cases h with
  | filling _ _ hlength _ => exact hlength.le
  | full _ _ _ _ => exact le_rfl

/-- The first slots hold the recent values, in some order. -/
theorem take_perm (h : RingOf c slots next len recent) : (slots.take len).Perm recent := by
  cases h with
  | filling _ _ _ _ =>
      rw [List.take_left' (List.length_reverse)]
      exact List.reverse_perm _
  | full _ _ _ hslots =>
      rw [List.take_of_length_le (by simpa using hslots.le)]
      exact (List.reverse_perm _).append (List.reverse_perm _)

/-- Writing at `next` adds a value, and in a full ring overwrites the oldest one. -/
theorem push (h : RingOf c slots next len recent) (a : α) :
    RingOf c (slots.set next a) ((next + 1) % c) (min (len + 1) c) ((a :: recent).take c) := by
  cases h with
  | filling _ rest hlength hslots =>
      have hrest : rest ≠ [] := by
        rintro rfl
        simp at hslots
        omega
      obtain ⟨b, rest, rfl⟩ := List.exists_cons_of_ne_nil hrest
      have hset : (recent.reverse ++ b :: rest).set recent.length a =
          (a :: recent).reverse ++ rest := by
        rw [← @List.length_reverse _ recent, List.set_append_right _ _ le_rfl]
        simp
      have htake : (a :: recent).take c = a :: recent := List.take_of_length_le hlength
      rw [hset, htake, Nat.min_eq_left (show recent.length + 1 ≤ c from hlength)]
      rcases Nat.lt_or_ge (recent.length + 1) c with hmore | hfull
      · rw [Nat.mod_eq_of_lt hmore]
        exact .filling (a :: recent) rest hmore (by simpa using hslots)
      · -- the last free slot: the ring is full and starts over
        have hc : recent.length + 1 = c := Nat.le_antisymm hlength hfull
        have hnil : rest = [] := by
          rw [← List.length_eq_zero_iff]
          simp at hslots
          omega
        subst hnil
        rw [hc, Nat.mod_self, List.append_nil]
        exact .full [] (a :: recent) (Nat.lt_of_le_of_lt (Nat.zero_le _) hlength) hc
  | full newer older hlength hslots =>
      have hne : older ≠ [] := by
        rintro rfl
        simp at hslots
        omega
      obtain ⟨older, b, rfl⟩ := List.eq_nil_or_concat' older |>.resolve_left hne
      have hset : (newer.reverse ++ (older ++ [b]).reverse).set newer.length a =
          (a :: newer).reverse ++ older.reverse := by
        rw [← @List.length_reverse _ newer, List.set_append_right _ _ le_rfl]
        simp
      have htake : (a :: (newer ++ (older ++ [b]))).take c = (a :: newer) ++ older := by
        have hcount : ((a :: newer) ++ older).length = c := by
          simp at hslots ⊢
          omega
        rw [show a :: (newer ++ (older ++ [b])) = ((a :: newer) ++ older) ++ [b] by simp,
          List.take_left' hcount]
      rw [hset, htake, Nat.min_eq_right (Nat.le_succ c)]
      have hcount : ((a :: newer) ++ older).length = c := by
        simp at hslots ⊢
        omega
      rcases Nat.lt_or_ge (newer.length + 1) c with hmore | hlast
      · rw [Nat.mod_eq_of_lt hmore]
        exact .full (a :: newer) older hmore hcount
      · -- the last slot: the next value goes to the first one
        have hc : newer.length + 1 = c := Nat.le_antisymm hlength hlast
        have hnil : older = [] := by
          rw [← List.length_eq_zero_iff]
          simp at hcount
          omega
        subst hnil
        rw [hc, Nat.mod_self, List.append_nil, List.reverse_nil, List.append_nil]
        exact .full [] (a :: newer) (Nat.lt_of_le_of_lt (Nat.zero_le _) hlength) hc

end RingOf

end HbbCommon.Base
