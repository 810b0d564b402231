import HbbCommon.Base.Memo
import HbbCommon.Platform.Fingerprint

/-!
# The cache of fingerprints

The names of the fields, written one behind the other, are the key of a fingerprint in the
cache. Names of fields that exist are told apart in that text; a name that does not exist
may be the text of two that do, and then one call is answered with the other's fingerprint.
-/

namespace HbbCommon.Platform

open HbbCommon.Base

variable {host : Host}

/-- Behind the first call of a process there is a cache. -/
def started (described : Bool) : CachedFingerprints :=
  if described then some (fun _ => none) else none

/-- The calls of a process that look into the cache. -/
def cachedCalls (described : Bool) (calls : List FingerprintCall) : List FingerprintCall :=
  if described then calls else calls.tail

theorem getFingerprint_some (cache : String → Option Bytes) (call : FingerprintCall) :
    getFingerprint host (some cache) call =
      ((Memo.call FingerprintCall.cacheKey (FingerprintCall.calculated host) cache call).1,
        some (Memo.call FingerprintCall.cacheKey (FingerprintCall.calculated host) cache call).2) := by
  unfold getFingerprint
  cases hget : cache call.cacheKey with
  | some fingerprint => simp only [hget, Memo.call_of_some hget]
  | none => simp only [hget, Memo.call_of_none hget]

theorem fingerprints_some (cache : String → Option Bytes) (calls : List FingerprintCall) :
    fingerprints host (some cache) calls =
      Memo.answers FingerprintCall.cacheKey (FingerprintCall.calculated host) cache calls := by
  induction calls generalizing cache with
  | nil => rfl
  | cons call calls ih => rw [fingerprints, getFingerprint_some, Memo.answers, ← ih]

/-- Every call of a process is answered with the fingerprint of its own parameters exactly
when calls that find one text in the cache have one fingerprint. -/
theorem fingerprints_transparent_iff (host : Host) (described : Bool)
    (calls : List FingerprintCall) :
    fingerprints host (started described) calls = calls.map (FingerprintCall.calculated host) ↔
      (cachedCalls described calls).Pairwise (fun a b =>
        a.cacheKey = b.cacheKey → a.calculated host = b.calculated host) := by
  cases described with
  | true =>
      show fingerprints host (some fun _ => none) calls = _ ↔ _
      rw [fingerprints_some, Memo.answers_empty_eq_map_iff]
      rfl
  | false =>
      cases calls with
      | nil => simp [fingerprints, cachedCalls]
      | cons call calls =>
          have hfirst : fingerprints host (started false) (call :: calls) =
              call.calculated host :: fingerprints host (some fun _ => none) calls := rfl
          rw [hfirst, fingerprints_some, List.map_cons, List.cons.injEq,
            Memo.answers_empty_eq_map_iff]
          exact and_iff_right rfl

/-! ## Names that exist -/

/-- Texts of words of which none begins another are told apart. -/
theorem flatten_injOn_of_prefixFree {α : Type} {words : List (List α)} (hne : [] ∉ words)
    (hfree : ∀ a ∈ words, ∀ b ∈ words, a <+: b → a = b) {as bs : List (List α)}
    (has : ∀ a ∈ as, a ∈ words) (hbs : ∀ b ∈ bs, b ∈ words) (h : as.flatten = bs.flatten) :
    as = bs := by
  induction as generalizing bs with
  | nil =>
      cases bs with
      | nil => rfl
      | cons b bs =>
          have hnil : b = [] := (List.append_eq_nil_iff.mp h.symm).1
          exact absurd (hnil ▸ hbs b List.mem_cons_self) hne
  | cons a as ih =>
      have ha := has a List.mem_cons_self
      cases bs with
      | nil => exact absurd ((List.append_eq_nil_iff.mp h).1 ▸ ha) hne
      | cons b bs =>
          have hb := hbs b List.mem_cons_self
          have heq : a ++ as.flatten = b ++ bs.flatten := h
          -- one of the first words begins the other
          have hfirst : a = b := by
            rcases List.append_eq_append_iff.mp heq with ⟨c, rfl, -⟩ | ⟨c, rfl, -⟩
            · exact hfree a ha _ hb (List.prefix_append a c)
            · exact (hfree b hb _ ha (List.prefix_append b c)).symm
          subst hfirst
          rw [ih (fun a h => has a (List.mem_cons_of_mem _ h))
            (fun b h => hbs b (List.mem_cons_of_mem _ h)) (List.append_cancel_left heq)]

theorem allParameters_prefixFree : ∀ a ∈ allParameters.map String.toList,
    ∀ b ∈ allParameters.map String.toList, a <+: b → a = b := by decide +kernel

theorem join_injOn_allParameters {as bs : List String} (has : ∀ a ∈ as, a ∈ allParameters)
    (hbs : ∀ b ∈ bs, b ∈ allParameters) (h : String.join as = String.join bs) : as = bs := by
  have hflatten : (as.map String.toList).flatten = (bs.map String.toList).flatten := by
    rw [← List.flatMap_def, ← List.flatMap_def, ← String.toList_join, ← String.toList_join, h]
  have hmem : ∀ {l : List String}, (∀ a ∈ l, a ∈ allParameters) →
      ∀ a ∈ l.map String.toList, a ∈ allParameters.map String.toList := by
    intro l hl a ha
    obtain ⟨param, hparam, rfl⟩ := List.mem_map.mp ha
    exact List.mem_map_of_mem (hl param hparam)
  exact List.map_injective_iff.mpr (fun _ _ => String.toList_injective)
    (flatten_injOn_of_prefixFree (by decide +kernel) allParameters_prefixFree (hmem has)
      (hmem hbs) hflatten)

/-- Calls for fields that exist are answered with their own fingerprints. -/
theorem fingerprints_of_known (described : Bool) {calls : List FingerprintCall}
    (hknown : ∀ call ∈ calls, ∀ param ∈ call.parameters, param ∈ allParameters) :
    fingerprints host (started described) calls = calls.map (FingerprintCall.calculated host) := by
  rw [fingerprints_transparent_iff]
  have hsub : ∀ call ∈ cachedCalls described calls, call ∈ calls := by
    intro call hcall
    unfold cachedCalls at hcall
    split at hcall
    · exact hcall
    · exact List.mem_of_mem_tail hcall
  refine List.pairwise_of_forall_mem_list (fun a ha b hb hkey => ?_)
  exact congrArg (calculateFingerprint host)
    (join_injOn_allParameters (hknown a (hsub a ha)) (hknown b (hsub b hb)) hkey)

/-! ## A name that does not exist -/

def sampleHost : Host where
  info :=
    { eol := "\n", endianness := "LE", brand := "", speedMax := "", cores := "4"
      physicalCores := "2", memTotal := "0", platform := "linux", arch := "x86_64"
      id := "123456789       ", addr := "0000000000000000" }
  sha512 _ := .replicate 64 0

/-- A fingerprint of no field is the answer to a later call for two fields. -/
theorem joined_names_share_fingerprint :
    fingerprints sampleHost none
        [⟨none, none⟩, ⟨some ["eolid"], none⟩, ⟨some ["eol", "id"], none⟩] ≠
      [⟨none, none⟩, ⟨some ["eolid"], none⟩, ⟨some ["eol", "id"], none⟩].map
        (FingerprintCall.calculated sampleHost) := by
  intro h
  have hlength := congrArg (fun answers => answers[2]?.map List.length) h
  revert hlength
  decide +kernel

end HbbCommon.Platform
