import HbbCommon.Net.HostPort

/-!
# Where the port helpers agree

`HexForm` is what the groups of the IPv6 expression match. A literal that begins and ends
with a group and holds no IPv4 part is of that form; a literal that begins or ends with
`::`, or holds an IPv4 part, is not, and a bracketed literal without a port is not matched
either: `check_port` gives these back as they are. In the other direction, a name of at
most four hexadecimal digits with a port of at most four digits is matched although it is
no literal.
-/

namespace HbbCommon.Net

open HbbCommon.Base

/-! ## What the expression matches -/

theorem isHex_colon : isHex ':' = false := by decide

theorem matches_hexGroup_iff {t : Text} : hexGroup.Matches t ↔ IsGroup t := by
  unfold hexGroup
  rw [Regex.matches_oneTo_chars_iff (by decide)]
  rfl

theorem matches_colons_iff {t : Text} :
    ((Regex.char ':').oneTo 2).Matches t ↔ t = [':'] ∨ t = [':', ':'] := by
  unfold Regex.char
  rw [Regex.matches_oneTo_chars_iff (by decide)]
  constructor
  · rintro ⟨hne, hlength, hall⟩
    have hcolon : ∀ c ∈ t, c = ':' := fun c hc => eq_of_beq (List.all_eq_true.mp hall c hc)
    rw [List.eq_replicate_length.mpr hcolon]
    have hpos := List.length_pos_iff.mpr hne
    interval_cases t.length
    · exact .inl rfl
    · exact .inr rfl
  · rintro (rfl | rfl) <;> decide

/-- Groups with one or two colons between them, at least two. -/
inductive HexForm : Text → Prop
  | last {g sep g' : Text} : IsGroup g → sep = [':'] ∨ sep = [':', ':'] → IsGroup g' →
      HexForm (g ++ sep ++ g')
  | cons {g sep rest : Text} : IsGroup g → sep = [':'] ∨ sep = [':', ':'] → HexForm rest →
      HexForm (g ++ sep ++ rest)

theorem matches_hexGroups_iff {t : Text} : hexGroups.Matches t ↔ HexForm t := by
  unfold hexGroups Regex.plus
  constructor
  · intro h
    obtain ⟨_, g', rfl, hplus, hlast⟩ := Regex.matches_seq_iff.mp h
    obtain ⟨_, more, rfl, hpart, hmore⟩ := Regex.matches_seq_iff.mp hplus
    obtain ⟨g, sep, rfl, hg, hsep⟩ := Regex.matches_seq_iff.mp hpart
    rw [matches_hexGroup_iff] at hg hlast
    rw [matches_colons_iff] at hsep
    clear h hplus hpart
    -- induction on the repetition behind the first group
    generalize hr : Regex.star (.seq hexGroup ((Regex.char ':').oneTo 2)) = r at hmore
    induction hmore generalizing g sep with
    | starNil =>
        rw [List.append_nil]
        exact .last hg hsep hlast
    | starCons hpart _ _ ih =>
        cases hr
        obtain ⟨g1, sep1, rfl, hg1, hsep1⟩ := Regex.matches_seq_iff.mp hpart
        rw [matches_hexGroup_iff] at hg1
        rw [matches_colons_iff] at hsep1
        rw [List.append_assoc]
        exact .cons hg hsep (ih g1 sep1 hg1 hsep1 rfl)
    | _ => cases hr
  · intro h
    have hpart : ∀ {g sep : Text}, IsGroup g → sep = [':'] ∨ sep = [':', ':'] →
        (Regex.seq hexGroup ((Regex.char ':').oneTo 2)).Matches (g ++ sep) :=
      fun hg hsep => .seq (matches_hexGroup_iff.mpr hg) (matches_colons_iff.mpr hsep)
    induction h with
    | @last g sep g' hg hsep hg' =>
        refine .seq ?_ (matches_hexGroup_iff.mpr hg')
        have hplus := Regex.Matches.seq (hpart hg hsep) (Regex.Matches.starNil
          (r := .seq hexGroup ((Regex.char ':').oneTo 2)))
        rwa [List.append_nil] at hplus
    | @cons g sep rest hg hsep _ ih =>
        obtain ⟨parts, g', rfl, hplus, hg'⟩ := Regex.matches_seq_iff.mp ih
        obtain ⟨u, v, rfl, hu, hv⟩ := Regex.matches_seq_iff.mp hplus
        rw [← List.append_assoc]
        exact .seq (.seq (hpart hg hsep) (.starCons hu hv)) hg'

theorem IsGroup.colon_not_mem {g : Text} (h : IsGroup g) : ':' ∉ g := by
  intro hcolon
  have hhex := List.all_eq_true.mp h.2.2 ':' hcolon
  rw [isHex_colon] at hhex
  cases hhex

theorem HexForm.colon_mem {t : Text} (h : HexForm t) : ':' ∈ t := by
  cases h with
  | last _ hsep _ => rcases hsep with rfl | rfl <;> simp
  | cons _ hsep _ => rcases hsep with rfl | rfl <;> simp

theorem HexForm.mem {t : Text} (h : HexForm t) : ∀ c ∈ t, isHex c = true ∨ c = ':' := by
  have hgroup : ∀ {g : Text}, IsGroup g → ∀ c ∈ g, isHex c = true ∨ c = ':' :=
    fun hg c hc => .inl (List.all_eq_true.mp hg.2.2 c hc)
  have hcolons : ∀ {sep : Text}, sep = [':'] ∨ sep = [':', ':'] →
      ∀ c ∈ sep, isHex c = true ∨ c = ':' := by
    rintro sep (rfl | rfl) c hc <;> simp at hc <;> exact .inr hc
  induction h with
  | last hg hsep hg' =>
      intro c hc
      rcases List.mem_append.mp hc with hc | hc
      · rcases List.mem_append.mp hc with hc | hc
        · exact hgroup hg c hc
        · exact hcolons hsep c hc
      · exact hgroup hg' c hc
  | cons hg hsep _ ih =>
      intro c hc
      rcases List.mem_append.mp hc with hc | hc
      · rcases List.mem_append.mp hc with hc | hc
        · exact hgroup hg c hc
        · exact hcolons hsep c hc
      · exact ih c hc

/-- The form begins with a group. -/
theorem HexForm.head {t : Text} (h : HexForm t) : t.head? ≠ some ':' := by
  have hgroup : ∀ {g rest : Text}, IsGroup g → (g ++ rest).head? ≠ some ':' := by
    intro g rest hg hhead
    obtain ⟨c, g, rfl⟩ := List.exists_cons_of_ne_nil hg.1
    exact hg.colon_not_mem (by simp at hhead; simp [hhead])
  cases h with
  | last hg _ _ =>
      rw [List.append_assoc]
      exact hgroup hg
  | cons hg _ _ =>
      rw [List.append_assoc]
      exact hgroup hg

/-- The form ends with a group. -/
theorem HexForm.getLast {t : Text} (h : HexForm t) : t.getLast? ≠ some ':' := by
  induction h with
  | @last g sep g' _ _ hg' =>
      intro hlast
      rw [List.getLast?_append_of_ne_nil _ hg'.1] at hlast
      exact hg'.colon_not_mem (List.mem_of_getLast? hlast)
  | @cons g sep rest _ _ hrest ih =>
      intro hlast
      have hne : rest ≠ [] := List.ne_nil_of_mem hrest.colon_mem
      rw [List.getLast?_append_of_ne_nil _ hne] at hlast
      exact ih hlast

/-- With a single colon the form is two groups. -/
theorem hexForm_pair_iff {a b : Text} (ha : ':' ∉ a) (hb : ':' ∉ b) :
    HexForm (a ++ ':' :: b) ↔ IsGroup a ∧ IsGroup b := by
  constructor
  · intro h
    generalize ht : a ++ ':' :: b = t at h
    cases h with
    | @last g sep g' hg hsep hg' =>
        rcases hsep with rfl | rfl
        · rw [List.append_assoc, List.singleton_append] at ht
          obtain ⟨rfl, -, rfl⟩ :=
            (List.append_cons_inj_of_notMem ha hb).mp ht
          exact ⟨hg, hg'⟩
        · rw [List.append_assoc, List.cons_append] at ht
          obtain ⟨-, -, rfl⟩ := (List.append_cons_inj_of_notMem ha hb).mp ht
          simp at hb
    | @cons g sep rest hg hsep hrest =>
        have hcolon : ':' ∈ b := by
          rcases hsep with rfl | rfl
          · rw [List.append_assoc, List.singleton_append] at ht
            obtain ⟨-, -, rfl⟩ := (List.append_cons_inj_of_notMem ha hb).mp ht
            exact hrest.colon_mem
          · rw [List.append_assoc, List.cons_append] at ht
            obtain ⟨-, -, rfl⟩ := (List.append_cons_inj_of_notMem ha hb).mp ht
            simp
        exact absurd hcolon hb
  · rintro ⟨hga, hgb⟩
    have h := HexForm.last hga (.inl rfl) hgb
    rwa [List.append_assoc, List.singleton_append] at h

theorem isIpv6Str_iff (unicodeDigit : Char → Bool) (t : Text) :
    isIpv6Str unicodeDigit t = true ↔
      HexForm t ∨ ∃ h p, t = '[' :: h ++ ']' :: ':' :: p ∧ HexForm h ∧
        p ≠ [] ∧ p.all unicodeDigit = true := by
  unfold isIpv6Str ipv6Regex
  rw [Regex.isMatch_iff, Regex.matches_alt_iff, matches_hexGroups_iff]
  refine or_congr_right ?_
  simp only [Regex.matches_seq_iff, Regex.matches_char_iff, matches_hexGroups_iff,
    Regex.matches_plus_chars_iff]
  constructor
  · rintro ⟨_, _, rfl, rfl, h, _, rfl, hform, _, _, rfl, rfl, _, p, rfl, rfl, hne, hall⟩
    exact ⟨h, p, rfl, hform, hne, hall⟩
  · rintro ⟨h, p, rfl, hform, hne, hall⟩
    exact ⟨['['], _, rfl, rfl, h, _, rfl, hform, [']'], _, rfl, rfl, [':'], p, rfl, rfl, hne, hall⟩

/-- Without a bracket only the first alternative is left. -/
theorem isIpv6Str_eq_false {unicodeDigit : Char → Bool} {t : Text} (hbracket : '[' ∉ t)
    (hform : ¬ HexForm t) : isIpv6Str unicodeDigit t = false := by
  rw [Bool.eq_false_iff, Ne, isIpv6Str_iff]
  rintro (h | ⟨h, p, rfl, -⟩)
  · exact hform h
  · simp at hbracket

/-! ## Literals -/

theorem joinGroups_cons_cons (g g' : Text) (groups : List Text) :
    joinGroups (g :: g' :: groups) = g ++ ':' :: joinGroups (g' :: groups) := by
  unfold joinGroups
  rw [List.intercalate_cons_cons, List.append_assoc, List.singleton_append]

theorem joinGroups_singleton (g : Text) : joinGroups [g] = g := by
  unfold joinGroups
  exact List.intercalate_singleton

/-- A group in front of a group or of a form. -/
theorem HexForm.of_group {g sep rest : Text} (hg : IsGroup g)
    (hsep : sep = [':'] ∨ sep = [':', ':']) (hrest : IsGroup rest ∨ HexForm rest) :
    HexForm (g ++ sep ++ rest) := by
  rcases hrest with hrest | hrest
  · exact .last hg hsep hrest
  · exact .cons hg hsep hrest

theorem joinGroups_form {groups : List Text} (hgroups : ∀ g ∈ groups, IsGroup g)
    (hne : groups ≠ []) : IsGroup (joinGroups groups) ∨ HexForm (joinGroups groups) := by
  induction groups with
  | nil => exact absurd rfl hne
  | cons g groups ih =>
      have hg : IsGroup g := hgroups g List.mem_cons_self
      cases groups with
      | nil =>
          rw [joinGroups_singleton]
          exact .inl hg
      | cons g' groups =>
          have hrest := ih (fun g hmem => hgroups g (List.mem_cons_of_mem _ hmem)) (by simp)
          have hform := HexForm.of_group hg (.inl rfl) hrest
          rw [List.append_assoc, List.singleton_append] at hform
          rw [joinGroups_cons_cons]
          exact .inr hform

/-- Groups on both sides of a `::`. -/
theorem shortForm {left right : List Text} (hleft : ∀ g ∈ left, IsGroup g)
    (hright : ∀ g ∈ right, IsGroup g) (hlne : left ≠ []) (hrne : right ≠ []) :
    HexForm (joinGroups left ++ ':' :: ':' :: joinGroups right) := by
  induction left with
  | nil => exact absurd rfl hlne
  | cons g left ih =>
      have hg : IsGroup g := hleft g List.mem_cons_self
      cases left with
      | nil =>
          have hform := HexForm.of_group hg (.inr rfl) (joinGroups_form hright hrne)
          rw [joinGroups_singleton]
          rwa [List.append_assoc] at hform
      | cons g' left =>
          have hrest := ih (fun g hmem => hleft g (List.mem_cons_of_mem _ hmem)) (by simp)
          have hform := HexForm.of_group hg (.inl rfl) (.inr hrest)
          rw [joinGroups_cons_cons, List.append_assoc, List.cons_append]
          rwa [List.append_assoc, List.singleton_append] at hform

theorem dot_mem_v4 {v4 : Text} (h : IsIpv4Literal v4) : '.' ∈ v4 := by
  obtain ⟨a, b, c, d, -, -, -, -, rfl⟩ := h
  simp

theorem mem_joinGroups_append_singleton {groups : List Text} {last : Text} {c : Char}
    (h : c ∈ last) : c ∈ joinGroups (groups ++ [last]) := by
  induction groups with
  | nil => rwa [List.nil_append, joinGroups_singleton]
  | cons g groups ih =>
      cases groups with
      | nil =>
          rw [List.singleton_append, joinGroups_cons_cons, joinGroups_singleton]
          simp [h]
      | cons g' groups =>
          rw [List.cons_append, List.cons_append, joinGroups_cons_cons]
          exact List.mem_append_right _ (List.mem_cons_of_mem _ ih)

/-- A literal that begins and ends with a group and holds no IPv4 part. -/
def IsPlainLiteral (h : Text) : Prop :=
  h.head? ≠ some ':' ∧ h.getLast? ≠ some ':' ∧ '.' ∉ h

theorem isHex_dot : isHex '.' = false := by decide

/-- These literals are the ones that the expression matches. -/
theorem IsIpv6Literal.hexForm_iff {h : Text} (hlit : IsIpv6Literal h) :
    HexForm h ↔ IsPlainLiteral h := by
  constructor
  · intro hform
    refine ⟨hform.head, hform.getLast, fun hdot => ?_⟩
    rcases hform.mem _ hdot with hhex | hcolon
    · rw [isHex_dot] at hhex
      cases hhex
    · cases hcolon
  · rintro ⟨hhead, hlast, hdot⟩
    cases hlit with
    | @full groups hgroups hcount =>
        match groups, hcount with
        | g :: g' :: groups, _ =>
            have hrest := joinGroups_form (fun g hmem => hgroups g (List.mem_cons_of_mem _ hmem))
              (List.cons_ne_nil g' groups)
            have hform := HexForm.of_group (hgroups g List.mem_cons_self) (.inl rfl) hrest
            rw [joinGroups_cons_cons]
            rwa [List.append_assoc, List.singleton_append] at hform
    | @short left right hleft hright hcount =>
        refine shortForm hleft hright ?_ ?_
        · rintro rfl
          exact hhead rfl
        · rintro rfl
          exact hlast (by simp [joinGroups])
    | fullV4 hgroups hcount hv4 =>
        exact absurd (mem_joinGroups_append_singleton (dot_mem_v4 hv4)) hdot
    | shortV4 hleft hright hcount hv4 =>
        refine absurd (List.mem_append_right _ ?_) hdot
        exact List.mem_cons_of_mem _ (List.mem_cons_of_mem _
          (mem_joinGroups_append_singleton (dot_mem_v4 hv4)))

theorem isHex_of_isDigit {c : Char} (h : c.isDigit = true) : isHex c = true := by
  unfold Char.isDigit at h
  unfold isHex
  simp only [Bool.and_eq_true, decide_eq_true_eq] at h
  rw [Bool.or_eq_true, Bool.and_eq_true, decide_eq_true_eq, decide_eq_true_eq]
  exact .inr h

/-- A printed number is a group when it has at most four digits. -/
theorem isGroup_decimal_iff (n : Nat) : IsGroup (decimal n) ↔ n ≤ 9999 := by
  unfold IsGroup
  rw [decimal_length_le_iff (by decide)]
  constructor
  · rintro ⟨-, hlt, -⟩
    omega
  · intro hle
    exact ⟨decimal_ne_nil n, by omega,
      List.all_eq_true.mpr (fun c hc => isHex_of_isDigit (isDigit_of_mem_decimal hc))⟩

theorem mem_v4 {v4 : Text} (h : IsIpv4Literal v4) :
    ∀ c ∈ v4, isHex c = true ∨ c = ':' ∨ c = '.' := by
  obtain ⟨a, b, c, d, -, -, -, -, rfl⟩ := h
  have hdecimal : ∀ n, ∀ c ∈ decimal n, isHex c = true :=
    fun n c hc => isHex_of_isDigit (isDigit_of_mem_decimal hc)
  intro x hx
  simp only [List.mem_append, List.mem_cons] at hx
  rcases hx with hx | rfl | hx | rfl | hx | rfl | hx
  · exact .inl (hdecimal _ x hx)
  · exact .inr (.inr rfl)
  · exact .inl (hdecimal _ x hx)
  · exact .inr (.inr rfl)
  · exact .inl (hdecimal _ x hx)
  · exact .inr (.inr rfl)
  · exact .inl (hdecimal _ x hx)

theorem mem_joinGroups {P : Char → Prop} (hcolon : P ':') {groups : List Text}
    (h : ∀ g ∈ groups, ∀ c ∈ g, P c) : ∀ c ∈ joinGroups groups, P c :=
  mem_intercalate hcolon h

theorem IsIpv6Literal.mem {h : Text} (hlit : IsIpv6Literal h) :
    ∀ c ∈ h, isHex c = true ∨ c = ':' ∨ c = '.' := by
  have hgroup : ∀ {groups : List Text}, (∀ g ∈ groups, IsGroup g) →
      ∀ g ∈ groups, ∀ c ∈ g, isHex c = true ∨ c = ':' ∨ c = '.' :=
    fun hgroups g hg c hc => .inl (List.all_eq_true.mp (hgroups g hg).2.2 c hc)
  have hwithV4 : ∀ {groups : List Text} {v4 : Text}, (∀ g ∈ groups, IsGroup g) →
      IsIpv4Literal v4 → ∀ g ∈ groups ++ [v4], ∀ c ∈ g, isHex c = true ∨ c = ':' ∨ c = '.' := by
    intro groups v4 hgroups hv4 g hg
    rcases List.mem_append.mp hg with hg | hg
    · exact hgroup hgroups g hg
    · rw [List.mem_singleton.mp hg]
      exact mem_v4 hv4
  have hshort : ∀ {left right : List Text},
      (∀ g ∈ left, ∀ c ∈ g, isHex c = true ∨ c = ':' ∨ c = '.') →
      (∀ g ∈ right, ∀ c ∈ g, isHex c = true ∨ c = ':' ∨ c = '.') →
      ∀ c ∈ joinGroups left ++ ':' :: ':' :: joinGroups right,
        isHex c = true ∨ c = ':' ∨ c = '.' := by
    intro left right hleft hright c hc
    rcases List.mem_append.mp hc with hc | hc
    · exact mem_joinGroups (.inr (.inl rfl)) hleft c hc
    · rcases List.mem_cons.mp hc with rfl | hc
      · exact .inr (.inl rfl)
      · rcases List.mem_cons.mp hc with rfl | hc
        · exact .inr (.inl rfl)
        · exact mem_joinGroups (.inr (.inl rfl)) hright c hc
  cases hlit with
  | full hgroups _ => exact mem_joinGroups (.inr (.inl rfl)) (hgroup hgroups)
  | short hleft hright _ => exact hshort (hgroup hleft) (hgroup hright)
  | fullV4 hgroups _ hv4 => exact mem_joinGroups (.inr (.inl rfl)) (hwithV4 hgroups hv4)
  | shortV4 hleft hright _ hv4 => exact hshort (hgroup hleft) (hwithV4 hright hv4)

theorem IsIpv6Literal.bracket_not_mem {h : Text} (hlit : IsIpv6Literal h) :
    '[' ∉ h ∧ ']' ∉ h := by
  constructor <;> intro hmem <;> have hc := hlit.mem _ hmem <;> revert hc <;> decide

/-- Between `n` groups stand `n - 1` colons. -/
theorem count_joinGroups (groups : List Text) :
    groups.length ≤ (joinGroups groups).count ':' + 1 := by
  induction groups with
  | nil => exact Nat.zero_le _
  | cons g groups ih =>
      cases groups with
      | nil => simp
      | cons g' groups =>
          rw [joinGroups_cons_cons, List.count_append, List.count_cons_self, List.length_cons]
          omega

theorem IsIpv6Literal.two_le_count {h : Text} (hlit : IsIpv6Literal h) : 2 ≤ h.count ':' := by
  have hshort : ∀ left right : Text, 2 ≤ (left ++ ':' :: ':' :: right).count ':' := by
    intro left right
    rw [List.count_append, List.count_cons_self, List.count_cons_self]
    omega
  cases hlit with
  | @full groups _ hcount =>
      have hle := count_joinGroups groups
      omega
  | short _ _ _ => exact hshort _ _
  | @fullV4 groups v4 _ hcount _ =>
      have hle := count_joinGroups (groups ++ [v4])
      rw [List.length_append, List.length_singleton] at hle
      omega
  | shortV4 _ _ _ _ => exact hshort _ _

/-- Two colons make at least three parts. -/
theorem splitOn_ne_pair {t : Text} (h : 2 ≤ t.count ':') (a b : Text) : t.splitOn ':' ≠ [a, b] := by
  obtain ⟨x, u, rfl, hx⟩ := List.eq_append_cons_of_mem
    (List.count_pos_iff.mp (Nat.lt_of_lt_of_le Nat.zero_lt_two h))
  rw [List.count_append, List.count_eq_zero.mpr hx, List.count_cons_self] at h
  obtain ⟨y, v, rfl, hy⟩ := List.eq_append_cons_of_mem
    (List.count_pos_iff.mp (show 0 < u.count ':' by omega))
  rw [List.splitOn_append_cons_self_of_not_mem hx, List.splitOn_append_cons_self_of_not_mem hy]
  intro heq
  exact List.splitOn_ne_nil ':' v (List.cons.inj (List.cons.inj heq).2).2

/-! ## Splitting at a bracket with a colon -/

theorem splitOnPair_cons_of_ne {a b c : Char} (hc : c ≠ a) (t : Text) :
    splitOnPair a b (c :: t) = (splitOnPair a b t).modifyHead (c :: ·) := by
  cases t with
  | nil => rfl
  | cons d rest => rw [splitOnPair, if_neg (fun h => hc h.1)]

theorem splitOnPair_of_not_mem {a b : Char} {t : Text} (h : a ∉ t) : splitOnPair a b t = [t] := by
  induction t with
  | nil => rfl
  | cons c t ih =>
      obtain ⟨hc, ht⟩ := not_or.mp (mt List.mem_cons.mpr h)
      rw [splitOnPair_cons_of_ne (Ne.symm hc), ih ht]
      rfl

theorem splitOnPair_append {a b : Char} {s : Text} (hs : a ∉ s) (t : Text) :
    splitOnPair a b (s ++ a :: b :: t) = s :: splitOnPair a b t := by
  induction s with
  | nil => rw [List.nil_append, splitOnPair, if_pos ⟨rfl, rfl⟩]
  | cons c s ih =>
      obtain ⟨hc, hs⟩ := not_or.mp (mt List.mem_cons.mpr hs)
      rw [List.cons_append, splitOnPair_cons_of_ne (Ne.symm hc), ih hs]
      rfl

end HbbCommon.Net
