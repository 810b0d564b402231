import HbbCommon.Net.Logic.HostPort

/-!
# The port helpers on one host

For every host the four demands on the helpers hold together exactly under `IsPortSafe`:
a name that is short and hexadecimal needs a port of five digits, an IPv6 literal must be
one that the expression matches, and must not come in brackets.
-/

namespace HbbCommon.Net

open HbbCommon.Base

/-- What the helpers owe one host and port: the port is put behind the host, is put there
once, is read back, and is moved. -/
structure PortAgrees (unicodeDigit : Char → Bool) (host : Host) (p : Nat) : Prop where
  carries : ∃ front, checkPort unicodeDigit host.text p = front ++ ':' :: decimal p
  once : ∀ q : Int, checkPort unicodeDigit (checkPort unicodeDigit host.text p) q =
    checkPort unicodeDigit host.text p
  split : splitHostPort unicodeDigit (checkPort unicodeDigit host.text p) =
    some (host.printed, (p : Int))
  moved : ∀ k : Int, 1 ≤ (p : Int) + k → (p : Int) + k ≤ 65535 →
    increasePort unicodeDigit (checkPort unicodeDigit host.text p) k =
      checkPort unicodeDigit host.text (p + k)

/-- The hosts and ports that the helpers agree on. -/
def IsPortSafe : Host → Nat → Prop
  | .name text _, p => ¬ (IsGroup text ∧ p ≤ 9999)
  | .v6 literal _, _ => IsPlainLiteral literal
  | .bracketed _ _, _ => False

/-! ## Names -/

section

variable {unicodeDigit : Char → Bool}

theorem parseI32_decimal {p : Nat} (hp : p ≤ 65535) : parseI32 (decimal p) = some (p : Int) :=
  parseInt_decimal (by omega) (by omega)

theorem colon_not_mem_name {text : Text} (h : text.all isNameChar = true) :
    ':' ∉ text ∧ '[' ∉ text := by
  constructor <;> intro hmem <;> have hc := List.all_eq_true.mp h _ hmem <;> revert hc <;> decide

/-- A name gets its port behind a colon. -/
theorem checkPort_name {text : Text} (h : text.all isNameChar = true) (p : Int) :
    checkPort unicodeDigit text p = text ++ ':' :: decimalInt p := by
  obtain ⟨hcolon, hbracket⟩ := colon_not_mem_name h
  unfold checkPort
  rw [isIpv6Str_eq_false hbracket (fun hform => hcolon hform.colon_mem)]
  simp only [Bool.false_eq_true, if_false]
  rw [if_pos (by simpa using hcolon)]

/-- A name with a port is taken for an IPv6 literal when both parts are groups. -/
theorem isIpv6Str_name {text : Text} (h : text.all isNameChar = true) (p : Nat) :
    isIpv6Str unicodeDigit (text ++ ':' :: decimal p) = true ↔ IsGroup text ∧ p ≤ 9999 := by
  obtain ⟨hcolon, hbracket⟩ := colon_not_mem_name h
  have hport : ':' ∉ decimal p := not_mem_decimal (by decide) p
  rw [isIpv6Str_iff, hexForm_pair_iff hcolon hport, isGroup_decimal_iff]
  refine or_iff_left ?_
  rintro ⟨g, q, heq, -⟩
  cases text with
  | nil => cases heq
  | cons c text =>
      obtain ⟨rfl, -⟩ := List.cons.inj heq
      exact hbracket List.mem_cons_self

theorem splitOn_name {text : Text} (h : text.all isNameChar = true) (p : Nat) :
    (text ++ ':' :: decimal p).splitOn ':' = [text, decimal p] := by
  rw [List.splitOn_append_cons_self_of_not_mem (colon_not_mem_name h).1,
    List.splitOn_eq_singleton (not_mem_decimal (by decide) p)]

theorem portAgrees_name_iff {text : Text} (h : text.all isNameChar = true) {p : Nat} (hp : 1 ≤ p)
    (hmax : p ≤ 65535) :
    PortAgrees unicodeDigit (.name text h) p ↔ ¬ (IsGroup text ∧ p ≤ 9999) := by
  have hcheck : checkPort unicodeDigit text p = text ++ ':' :: decimal p := by
    rw [checkPort_name h, decimalInt_natCast]
  have hcontains : (text ++ ':' :: decimal p).contains ':' = true := by simp
  constructor
  · intro hagrees hgroup
    -- the second call takes the text for an address and puts it in brackets
    have honce := hagrees.once 1
    change checkPort unicodeDigit (checkPort unicodeDigit text p) 1 =
      checkPort unicodeDigit text p at honce
    rw [hcheck] at honce
    obtain ⟨c, rest, rfl⟩ := List.exists_cons_of_ne_nil hgroup.1.1
    have hbracket : '[' ∉ c :: rest := (colon_not_mem_name h).2
    have hc : c ≠ '[' := by
      rintro rfl
      exact hbracket List.mem_cons_self
    have hstarts : startsWithBracket (c :: rest ++ ':' :: decimal p) = false := by
      simp [startsWithBracket, hc]
    unfold checkPort at honce
    rw [(isIpv6Str_name h p).mpr hgroup, hstarts] at honce
    simp only [if_true, Bool.false_eq_true, if_false] at honce
    exact hc (List.cons.inj honce).1.symm
  · intro hsafe
    have hipv6 : isIpv6Str unicodeDigit (text ++ ':' :: decimal p) = false :=
      Bool.eq_false_iff.mpr (mt (isIpv6Str_name h p).mp hsafe)
    have hpos : (p : Int) > 0 := by omega
    refine ⟨⟨text, hcheck⟩, fun q => ?_, ?_, fun k hlow hhigh => ?_⟩
    · change checkPort unicodeDigit (checkPort unicodeDigit text p) q = checkPort unicodeDigit text p
      rw [hcheck]
      unfold checkPort
      rw [hipv6, hcontains]
      rfl
    · change splitHostPort unicodeDigit (checkPort unicodeDigit text p) = some (text, _)
      rw [hcheck]
      unfold splitHostPort
      rw [hipv6, hcontains, splitOn_name h]
      simp only [Bool.false_eq_true, if_false, if_true, parseI32_decimal hmax, Option.getD_some,
        hpos]
    · change increasePort unicodeDigit (checkPort unicodeDigit text p) k =
        checkPort unicodeDigit text (p + k)
      rw [hcheck, checkPort_name h]
      unfold increasePort
      rw [hipv6, hcontains, splitOn_name h]
      simp only [Bool.false_eq_true, if_false, if_true, parseI32_decimal hmax, Option.getD_some,
        hpos]
      rw [wrapI32_of_mem (by omega) (by omega)]

/-! ## Literals -/

theorem startsWithBracket_cons (t : Text) : startsWithBracket ('[' :: t) = true := rfl

/-- A literal that the expression does not match is given back without a port, and a pair of
host and port is not read from it. -/
theorem not_portAgrees_v6 {literal : Text} (h : IsIpv6Literal literal) {p : Nat}
    (hform : ¬ HexForm literal) : ¬ PortAgrees unicodeDigit (.v6 literal h) p := by
  intro hagrees
  have hipv6 : isIpv6Str unicodeDigit literal = false :=
    isIpv6Str_eq_false h.bracket_not_mem.1 hform
  have hcolon : literal.contains ':' = true := by
    have hpos : 0 < literal.count ':' := lt_of_lt_of_le Nat.zero_lt_two h.two_le_count
    simpa using List.count_pos_iff.mp hpos
  have hcheck : checkPort unicodeDigit literal p = literal := by
    unfold checkPort
    rw [hipv6, hcolon]
    rfl
  have hsplit : splitHostPort unicodeDigit (checkPort unicodeDigit literal p) =
      some ('[' :: literal ++ [']'], (p : Int)) := hagrees.split
  rw [hcheck] at hsplit
  unfold splitHostPort at hsplit
  rw [hipv6, hcolon] at hsplit
  simp only [Bool.false_eq_true, if_false, if_true] at hsplit
  split at hsplit
  · rename_i front back heq
    exact splitOn_ne_pair h.two_le_count front back heq
  · cases hsplit

theorem checkPort_literal {literal : Text} (h : IsIpv6Literal literal) (hform : HexForm literal)
    (p : Int) :
    checkPort unicodeDigit literal p = '[' :: literal ++ ']' :: ':' :: decimalInt p := by
  have hipv6 : isIpv6Str unicodeDigit literal = true := (isIpv6Str_iff _ _).mpr (.inl hform)
  have hstarts : startsWithBracket literal = false := by
    unfold startsWithBracket
    rw [beq_eq_false_iff_ne]
    intro hhead
    exact h.bracket_not_mem.1 (List.mem_of_mem_head? hhead)
  unfold checkPort
  rw [hipv6, hstarts]
  rfl

theorem portAgrees_v6 (hdigits : ∀ c, c.isDigit = true → unicodeDigit c = true) {literal : Text}
    (h : IsIpv6Literal literal) (hform : HexForm literal) {p : Nat} (hp : 1 ≤ p)
    (hmax : p ≤ 65535) : PortAgrees unicodeDigit (.v6 literal h) p := by
  have hcheck : checkPort unicodeDigit literal p = '[' :: literal ++ ']' :: ':' :: decimal p := by
    rw [checkPort_literal h hform, decimalInt_natCast]
  have hall : (decimal p).all unicodeDigit = true :=
    List.all_eq_true.mpr (fun c hc => hdigits c (isDigit_of_mem_decimal hc))
  have hipv6 : isIpv6Str unicodeDigit ('[' :: literal ++ ']' :: ':' :: decimal p) = true :=
    (isIpv6Str_iff _ _).mpr (.inr ⟨literal, decimal p, rfl, hform, decimal_ne_nil p, hall⟩)
  have hstarts : startsWithBracket ('[' :: literal ++ ']' :: ':' :: decimal p) = true := rfl
  have hclose : ']' ∉ '[' :: literal := by simp [h.bracket_not_mem.2]
  have hpair : splitOnPair ']' ':' ('[' :: literal ++ ']' :: ':' :: decimal p) =
      ['[' :: literal, decimal p] := by
    rw [splitOnPair_append hclose, splitOnPair_of_not_mem (not_mem_decimal (by decide) p)]
  have hpos : (p : Int) > 0 := by omega
  refine ⟨⟨'[' :: literal ++ [']'], ?_⟩, fun q => ?_, ?_, fun k hlow hhigh => ?_⟩
  · change checkPort unicodeDigit literal p = _
    rw [hcheck]
    simp
  · change checkPort unicodeDigit (checkPort unicodeDigit literal p) q =
      checkPort unicodeDigit literal p
    rw [hcheck]
    unfold checkPort
    rw [hipv6, hstarts]
    rfl
  · change splitHostPort unicodeDigit (checkPort unicodeDigit literal p) =
      some ('[' :: literal ++ [']'], _)
    rw [hcheck]
    unfold splitHostPort
    rw [hipv6, hstarts, hpair]
    simp only [if_true, parseI32_decimal hmax, Option.getD_some, hpos]
  · change increasePort unicodeDigit (checkPort unicodeDigit literal p) k =
      checkPort unicodeDigit literal (p + k)
    rw [hcheck, checkPort_literal h hform]
    unfold increasePort
    rw [hipv6, hstarts, hpair]
    simp only [if_true, parseI32_decimal hmax, Option.getD_some, hpos]
    rw [wrapI32_of_mem (by omega) (by omega)]

/-- A bracketed literal has a colon, so no port is put behind it. -/
theorem not_portAgrees_bracketed {literal : Text} (h : IsIpv6Literal literal) (p : Nat) :
    ¬ PortAgrees unicodeDigit (.bracketed literal h) p := by
  intro hagrees
  have hipv6 : isIpv6Str unicodeDigit ('[' :: literal ++ [']']) = false := by
    rw [Bool.eq_false_iff, Ne, isIpv6Str_iff]
    rintro (hform | ⟨g, q, heq, -⟩)
    · have hbracket := hform.mem '[' List.mem_cons_self
      revert hbracket
      decide
    · obtain ⟨-, -, hnil⟩ := (List.append_cons_inj_of_notMem h.bracket_not_mem.2
        (by simp)).mp (List.cons.inj heq).2
      cases hnil
  have hcolon : ('[' :: literal ++ [']']).contains ':' = true := by
    have hpos : 0 < literal.count ':' := lt_of_lt_of_le Nat.zero_lt_two h.two_le_count
    have hmem := List.count_pos_iff.mp hpos
    simp [hmem]
  have hcheck : checkPort unicodeDigit ('[' :: literal ++ [']']) p = '[' :: literal ++ [']'] := by
    unfold checkPort
    rw [hipv6, hcolon]
    rfl
  obtain ⟨front, hfront⟩ := hagrees.carries
  change checkPort unicodeDigit ('[' :: literal ++ [']']) p = _ at hfront
  rw [hcheck] at hfront
  -- the last character is the bracket on one side and a digit on the other
  have hlast := congrArg List.getLast? hfront
  rw [List.getLast?_append_of_ne_nil _ (by simp), List.getLast?_append_of_ne_nil _ (by simp),
    List.getLast?_cons_of_ne_nil (decimal_ne_nil p)] at hlast
  have hdigit := isDigit_of_mem_decimal (List.mem_of_getLast? hlast.symm)
  revert hdigit
  decide

end

/-- The helpers agree on a host and a port exactly when the pair is safe. -/
theorem portAgrees_iff {unicodeDigit : Char → Bool}
    (hdigits : ∀ c, c.isDigit = true → unicodeDigit c = true) (host : Host) {p : Nat}
    (hp : 1 ≤ p) (hmax : p ≤ 65535) : PortAgrees unicodeDigit host p ↔ IsPortSafe host p := by
  cases host with
  | name text h => exact portAgrees_name_iff h hp hmax
  | v6 literal h =>
      refine ⟨fun hagrees => ?_, fun hplain => ?_⟩
      · rw [IsPortSafe, ← h.hexForm_iff]
        exact not_not.mp (fun hform => not_portAgrees_v6 h hform hagrees)
      · exact portAgrees_v6 hdigits h (h.hexForm_iff.mpr hplain) hp hmax
  | bracketed literal h => exact ⟨fun hagrees => not_portAgrees_bracketed h p hagrees, False.elim⟩

theorem portAgrees_sample :
    PortAgrees Char.isDigit (.name "example.com".toList (by decide)) 21116 :=
  (portAgrees_iff (fun _ h => h) _ (by decide) (by decide)).mpr (by
    rintro ⟨-, hle⟩
    revert hle
    decide)

/-- `cafe` with port 8080 is taken for an address and gets a second port. -/
theorem hexadecimal_name_is_an_address :
    ¬ ∀ (host : Host) (p : Nat), 1 ≤ p → p ≤ 65535 → PortAgrees Char.isDigit host p := by
  intro h
  have honce := (h (.name "cafe".toList (by decide)) 8080 (by decide) (by decide)).once 1
  revert honce
  decide

end HbbCommon.Net
