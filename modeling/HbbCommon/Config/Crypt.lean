import Mathlib

/-!
# Encrypted values of the configuration

An encrypted text is the version `00` with the Base64 text of a secretbox behind it. The libraries
and the key are parameters; what is random in an encryption is its argument.
-/

namespace HbbCommon.Config

def passwordEncVersion : String := "00"

def encryptMaxLen : Nat := 128

/-- `encrypt` and `decrypt` under one key. -/
structure Crypt where
  /-- of a text that is not empty, with a nonce -/
  encrypt : Nat → String → String
  decrypt : String → Option String
  /-- the Base64 text of at least `secretbox::MACBYTES` bytes -/
  isPayload : String → Bool

/-- What is behind the version, when something is. -/
def behindVersion (s : String) : Option String :=
  match s.toList with
  | '0' :: '0' :: c :: rest => some (.ofList (c :: rest))
  | _ => none

namespace Crypt

variable (c : Crypt)

def isEncrypted (s : String) : Bool := ((behindVersion s).map c.isPayload).getD false

def encryptStrOrOriginal (nonce : Nat) (s version : String) (maxLen : Nat) : String :=
  if c.isEncrypted s then s
  else if s.length > maxLen then ""
  else if version = "00" ∧ s ≠ "" then version ++ c.encrypt nonce s
  else s

/-- The text, whether it was decrypted, and whether it should be stored again. -/
def decryptStrOrOriginal (s currentVersion : String) : String × Bool × Bool :=
  match (behindVersion s).bind c.decrypt with
  | some plain => (plain, true, "00" ≠ currentVersion)
  | none => (s, false, s ≠ "" ∧ ¬ c.isEncrypted s)

/-- Ideal encryption: what was encrypted is decrypted, and only what `encrypt` may have made is. -/
structure Ideal : Prop where
  encrypt_ne_empty : ∀ nonce s, c.encrypt nonce s ≠ ""
  decrypt_encrypt : ∀ nonce s, s ≠ "" → c.decrypt (c.encrypt nonce s) = some s
  isPayload_of_decrypt : ∀ body s, c.decrypt body = some s → c.isPayload body
  /-- An empty text is not encrypted. -/
  ne_empty_of_decrypt : ∀ body s, c.decrypt body = some s → s ≠ ""

end Crypt

theorem behindVersion_append {body : String} (h : body ≠ "") :
    behindVersion ("00" ++ body) = some body := by
  obtain ⟨c, rest, hlist⟩ := List.exists_cons_of_ne_nil (String.toList_eq_nil_iff.not.mpr h)
  have hall : ("00" ++ body).toList = '0' :: '0' :: c :: rest := by
    rw [String.toList_append, hlist]
    rfl
  unfold behindVersion
  rw [hall]
  show some (String.ofList (c :: rest)) = some body
  rw [← hlist, String.ofList_toList]

theorem behindVersion_empty : behindVersion "" = none := rfl

namespace Crypt

variable {c : Crypt} {nonce maxLen : Nat} {s : String}

/-- A text that was encrypted is decrypted. -/
theorem decrypt_encryptStrOrOriginal (nonce : Nat) (h : c.Ideal) (hs : s ≠ "")
    (hplain : c.isEncrypted s = false) (hlength : s.length ≤ maxLen) :
    c.decryptStrOrOriginal (c.encryptStrOrOriginal nonce s passwordEncVersion maxLen)
      passwordEncVersion = (s, true, false) := by
  have hencrypt : c.encryptStrOrOriginal nonce s passwordEncVersion maxLen =
      "00" ++ c.encrypt nonce s := by
    rw [encryptStrOrOriginal, if_neg (by simp [hplain]), if_neg (Nat.not_lt.mpr hlength),
      if_pos ⟨rfl, hs⟩]
    rfl
  rw [hencrypt, decryptStrOrOriginal, behindVersion_append (h.encrypt_ne_empty nonce s),
    Option.bind_some, h.decrypt_encrypt nonce s hs]
  simp [passwordEncVersion]

@[simp] theorem decryptStrOrOriginal_empty :
    c.decryptStrOrOriginal "" passwordEncVersion = ("", false, false) := by
  simp [decryptStrOrOriginal, behindVersion_empty]

/-- An encryption that only marks its texts. -/
def marking : Crypt where
  encrypt _ s := "=" ++ s
  decrypt body :=
    match body.toList with
    | '=' :: c :: rest => some (.ofList (c :: rest))
    | _ => none
  isPayload body :=
    match body.toList with
    | '=' :: _ => true
    | _ => false

theorem marking_ideal : marking.Ideal where
  encrypt_ne_empty nonce s h := by
    have := congrArg String.toList h
    simp [marking] at this
  decrypt_encrypt nonce s hs := by
    obtain ⟨c, rest, hlist⟩ := List.exists_cons_of_ne_nil (String.toList_eq_nil_iff.not.mpr hs)
    have hall : ("=" ++ s).toList = '=' :: c :: rest := by
      rw [String.toList_append, hlist]
      rfl
    show (match ("=" ++ s).toList with
      | '=' :: c :: rest => some (String.ofList (c :: rest))
      | _ => none) = some s
    rw [hall]
    show some (String.ofList (c :: rest)) = some s
    rw [← hlist, String.ofList_toList]
  isPayload_of_decrypt body s h := by
    simp only [marking] at h ⊢
    split at h
    · rename_i hlist
      rw [hlist]
      rfl
    · cases h
  ne_empty_of_decrypt body s h := by
    simp only [marking] at h
    split at h
    · cases h
      simp
    · cases h

end Crypt

end HbbCommon.Config
