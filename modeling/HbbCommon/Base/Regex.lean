import HbbCommon.Base.Text

/-!
# Regular expressions

Expressions over classes of characters, matched against a whole text. `Matches` says what
an expression means; `isMatch` decides it by taking derivatives.
-/

namespace HbbCommon.Base

inductive Regex
  | none
  | empty
  | chars (p : Char → Bool)
  | seq (r s : Regex)
  | alt (r s : Regex)
  | star (r : Regex)

namespace Regex

/-! ## Meaning -/

inductive Matches : Regex → Text → Prop
  | empty : Matches .empty []
  | chars {p : Char → Bool} {c : Char} : p c = true → Matches (.chars p) [c]
  | seq {r s : Regex} {t u : Text} : Matches r t → Matches s u → Matches (.seq r s) (t ++ u)
  | altLeft {r s : Regex} {t : Text} : Matches r t → Matches (.alt r s) t
  | altRight {r s : Regex} {t : Text} : Matches s t → Matches (.alt r s) t
  | starNil {r : Regex} : Matches (.star r) []
  | starCons {r : Regex} {t u : Text} : Matches r t → Matches (.star r) u →
      Matches (.star r) (t ++ u)

theorem matches_none {t : Text} : ¬ Matches .none t := nofun

theorem matches_empty_iff {t : Text} : Matches .empty t ↔ t = [] := by
  constructor
  · rintro ⟨⟩
    rfl
  · rintro rfl
    exact .empty

theorem matches_chars_iff {p : Char → Bool} {t : Text} :
    Matches (.chars p) t ↔ ∃ c, t = [c] ∧ p c = true := by
  constructor
  · rintro ⟨⟩
    exact ⟨_, rfl, by assumption⟩
  · rintro ⟨c, rfl, hc⟩
    exact .chars hc

theorem matches_seq_iff {r s : Regex} {t : Text} :
    Matches (.seq r s) t ↔ ∃ u v, t = u ++ v ∧ Matches r u ∧ Matches s v := by
  constructor
  · rintro ⟨⟩
    exact ⟨_, _, rfl, by assumption, by assumption⟩
  · rintro ⟨u, v, rfl, hu, hv⟩
    exact .seq hu hv

theorem matches_alt_iff {r s : Regex} {t : Text} :
    Matches (.alt r s) t ↔ Matches r t ∨ Matches s t := by
  constructor
  · intro h
    cases h with
    | altLeft h => exact .inl h
    | altRight h => exact .inr h
  · rintro (h | h)
    · exact .altLeft h
    · exact .altRight h

/-! ## Matching -/

def nullable : Regex → Bool
  | .none => false
  | .empty => true
  | .chars _ => false
  | .seq r s => r.nullable && s.nullable
  | .alt r s => r.nullable || s.nullable
  | .star _ => true

/-- What is left to match after one character. -/
def deriv (c : Char) : Regex → Regex
  | .none => .none
  | .empty => .none
  | .chars p => if p c then .empty else .none
  | .seq r s =>
      if r.nullable then .alt (.seq (deriv c r) s) (deriv c s) else .seq (deriv c r) s
  | .alt r s => .alt (deriv c r) (deriv c s)
  | .star r => .seq (deriv c r) (.star r)

def isMatch (r : Regex) : Text → Bool
  | [] => r.nullable
  | c :: t => (r.deriv c).isMatch t

theorem nullable_iff (r : Regex) : r.nullable = true ↔ Matches r [] := by
  induction r with
  | none => exact ⟨nofun, fun h => absurd h matches_none⟩
  | empty => exact ⟨fun _ => .empty, fun _ => rfl⟩
  | chars p =>
      refine ⟨nofun, fun h => ?_⟩
      obtain ⟨c, hnil, -⟩ := matches_chars_iff.mp h
      cases hnil
  | seq r s ihr ihs =>
      rw [nullable, Bool.and_eq_true, ihr, ihs, matches_seq_iff]
      constructor
      · rintro ⟨hr, hs⟩
        exact ⟨[], [], rfl, hr, hs⟩
      · rintro ⟨u, v, hnil, hr, hs⟩
        obtain ⟨rfl, rfl⟩ := List.append_eq_nil_iff.mp hnil.symm
        exact ⟨hr, hs⟩
  | alt r s ihr ihs => rw [nullable, Bool.or_eq_true, ihr, ihs, matches_alt_iff]
  | star r _ => exact ⟨fun _ => .starNil, fun _ => rfl⟩

/-- A repetition that is not empty starts with a part that is not empty. -/
theorem matches_star_cons_iff {r : Regex} {c : Char} {t : Text} :
    Matches (.star r) (c :: t) ↔
      ∃ u v, t = u ++ v ∧ Matches r (c :: u) ∧ Matches (.star r) v := by
  constructor
  · intro h
    generalize hs : Regex.star r = s at h
    generalize hct : c :: t = ct at h
    induction h with
    | starNil => cases hct
    | @starCons r' u v hu hv _ ih =>
        cases hs
        cases u with
        | nil => exact ih rfl hct
        | cons d u =>
            obtain ⟨rfl, rfl⟩ := List.cons.inj hct
            exact ⟨u, v, rfl, hu, hv⟩
    | _ => cases hs
  · rintro ⟨u, v, rfl, hu, hv⟩
    exact .starCons hu hv

/-- The derivative matches what the expression matches behind the character. -/
theorem matches_deriv_iff (r : Regex) (c : Char) (t : Text) :
    Matches (r.deriv c) t ↔ Matches r (c :: t) := by
  induction r generalizing t with
  | none => exact ⟨fun h => absurd h matches_none, fun h => absurd h matches_none⟩
  | empty =>
      refine ⟨fun h => absurd h matches_none, fun h => ?_⟩
      cases matches_empty_iff.mp h
  | chars p =>
      rw [matches_chars_iff, deriv]
      split
      · rename_i hp
        rw [matches_empty_iff]
        constructor
        · rintro rfl
          exact ⟨c, rfl, hp⟩
        · rintro ⟨d, hd, -⟩
          exact (List.cons.inj hd).2
      · rename_i hp
        refine ⟨fun h => absurd h matches_none, ?_⟩
        rintro ⟨d, hd, hpd⟩
        obtain ⟨rfl, -⟩ := List.cons.inj hd
        exact absurd hpd hp
  | seq r s ihr ihs =>
      have hfront : Matches (.seq (r.deriv c) s) t ↔
          ∃ u v, t = u ++ v ∧ Matches r (c :: u) ∧ Matches s v := by
        simp only [matches_seq_iff, ihr]
      -- the character belongs to the first part, or that part is empty
      have hsplit : Matches (.seq r s) (c :: t) ↔
          (∃ u v, t = u ++ v ∧ Matches r (c :: u) ∧ Matches s v) ∨
            (Matches r [] ∧ Matches s (c :: t)) := by
        rw [matches_seq_iff]
        constructor
        · rintro ⟨u, v, huv, hr, hs⟩
          cases u with
          | nil => exact .inr ⟨hr, huv ▸ hs⟩
          | cons d u =>
              obtain ⟨rfl, rfl⟩ := List.cons.inj huv
              exact .inl ⟨u, v, rfl, hr, hs⟩
        · rintro (⟨u, v, rfl, hr, hs⟩ | ⟨hr, hs⟩)
          · exact ⟨c :: u, v, rfl, hr, hs⟩
          · exact ⟨[], c :: t, rfl, hr, hs⟩
      rw [hsplit, ← nullable_iff, deriv]
      split
      · rename_i hnull
        rw [matches_alt_iff, hfront, ihs]
        simp only [hnull, true_and]
      · rename_i hnull
        rw [hfront, or_iff_left (fun h => hnull h.1)]
  | alt r s ihr ihs => rw [deriv, matches_alt_iff, ihr, ihs, matches_alt_iff]
  | star r ih =>
      rw [deriv, matches_seq_iff, matches_star_cons_iff]
      simp only [ih]

theorem isMatch_iff (r : Regex) (t : Text) : r.isMatch t = true ↔ Matches r t := by
  induction t generalizing r with
  | nil => exact r.nullable_iff
  | cons c t ih => rw [isMatch, ih, matches_deriv_iff]

/-! ## Repetitions -/

/-- At most `n` times. -/
def upTo (r : Regex) : Nat → Regex
  | 0 => .empty
  | n + 1 => .alt .empty (.seq r (upTo r n))

/-- `r+`. -/
def plus (r : Regex) : Regex := .seq r (.star r)

/-- `r{1,n}`, for `n` from one on. -/
def oneTo (r : Regex) (n : Nat) : Regex := .seq r (r.upTo (n - 1))

/-- A character. -/
def char (c : Char) : Regex := .chars (· == c)

theorem matches_char_iff {c : Char} {t : Text} : Matches (char c) t ↔ t = [c] := by
  unfold char
  rw [matches_chars_iff]
  constructor
  · rintro ⟨d, rfl, hd⟩
    rw [eq_of_beq hd]
  · rintro rfl
    exact ⟨c, rfl, beq_self_eq_true c⟩

theorem matches_upTo_chars_iff {p : Char → Bool} {n : Nat} {t : Text} :
    Matches ((chars p).upTo n) t ↔ t.length ≤ n ∧ t.all p = true := by
  induction n generalizing t with
  | zero =>
      rw [upTo, matches_empty_iff]
      constructor
      · rintro rfl
        exact ⟨le_rfl, rfl⟩
      · rintro ⟨hlength, -⟩
        exact List.length_eq_zero_iff.mp (Nat.le_zero.mp hlength)
  | succ n ih =>
      rw [upTo, matches_alt_iff, matches_empty_iff, matches_seq_iff]
      constructor
      · rintro (rfl | ⟨u, v, rfl, hu, hv⟩)
        · exact ⟨Nat.zero_le _, rfl⟩
        · obtain ⟨c, rfl, hc⟩ := matches_chars_iff.mp hu
          obtain ⟨hlength, hall⟩ := ih.mp hv
          refine ⟨Nat.succ_le_succ hlength, ?_⟩
          rw [List.singleton_append, List.all_cons, hc, hall]
          rfl
      · rintro ⟨hlength, hall⟩
        cases t with
        | nil => exact .inl rfl
        | cons c t =>
            rw [List.all_cons, Bool.and_eq_true] at hall
            exact .inr ⟨[c], t, rfl, .chars hall.1,
              ih.mpr ⟨Nat.le_of_succ_le_succ hlength, hall.2⟩⟩

theorem matches_oneTo_chars_iff {p : Char → Bool} {n : Nat} (hn : 0 < n) {t : Text} :
    Matches ((chars p).oneTo n) t ↔ t ≠ [] ∧ t.length ≤ n ∧ t.all p = true := by
  unfold oneTo
  rw [matches_seq_iff]
  constructor
  · rintro ⟨u, v, rfl, hu, hv⟩
    obtain ⟨c, rfl, hc⟩ := matches_chars_iff.mp hu
    obtain ⟨hlength, hall⟩ := matches_upTo_chars_iff.mp hv
    refine ⟨by simp, ?_, ?_⟩
    · rw [List.singleton_append, List.length_cons]
      omega
    · rw [List.singleton_append, List.all_cons, hc, hall]
      rfl
  · rintro ⟨hne, hlength, hall⟩
    obtain ⟨c, t, rfl⟩ := List.exists_cons_of_ne_nil hne
    rw [List.all_cons, Bool.and_eq_true] at hall
    rw [List.length_cons] at hlength
    exact ⟨[c], t, rfl, .chars hall.1, matches_upTo_chars_iff.mpr ⟨by omega, hall.2⟩⟩

theorem matches_star_chars_iff {p : Char → Bool} {t : Text} :
    Matches (.star (chars p)) t ↔ t.all p = true := by
  induction t with
  | nil => exact ⟨fun _ => rfl, fun _ => .starNil⟩
  | cons c t ih =>
      rw [matches_star_cons_iff, List.all_cons, Bool.and_eq_true]
      constructor
      · rintro ⟨u, v, rfl, hu, hv⟩
        obtain ⟨d, hd, hp⟩ := matches_chars_iff.mp hu
        obtain ⟨rfl, rfl⟩ := List.cons.inj hd
        exact ⟨hp, ih.mp hv⟩
      · rintro ⟨hc, ht⟩
        exact ⟨[], t, rfl, .chars hc, ih.mpr ht⟩

theorem matches_plus_chars_iff {p : Char → Bool} {t : Text} :
    Matches (chars p).plus t ↔ t ≠ [] ∧ t.all p = true := by
  unfold plus
  rw [matches_seq_iff]
  constructor
  · rintro ⟨u, v, rfl, hu, hv⟩
    obtain ⟨c, rfl, hc⟩ := matches_chars_iff.mp hu
    refine ⟨by simp, ?_⟩
    rw [List.singleton_append, List.all_cons, hc, matches_star_chars_iff.mp hv]
    rfl
  · rintro ⟨hne, hall⟩
    obtain ⟨c, t, rfl⟩ := List.exists_cons_of_ne_nil hne
    rw [List.all_cons, Bool.and_eq_true] at hall
    exact ⟨[c], t, rfl, .chars hall.1, matches_star_chars_iff.mpr hall.2⟩

end Regex

end HbbCommon.Base
