import HbbCommon.Base.Regex

/-!
# Hosts with a port

`check_port`, `increase_port` and `split_host_port` tell a plain host, a host with a port
and an IPv6 literal apart by a regular expression, by a leading bracket and by the colons.
The expression for IPv6 literals is permissive: groups of up to four hexadecimal digits,
with one or two colons between them.

What `\d` matches is a parameter: it is the class of all decimal digits of Unicode, of
which the ASCII digits are some.
-/

namespace HbbCommon.Net

open HbbCommon.Base

/-! ## The expression -/

/-- `[a-fA-F0-9]`. -/
def isHex (c : Char) : Bool :=
  ('a' ≤ c && c ≤ 'f') || ('A' ≤ c && c ≤ 'F') || ('0' ≤ c && c ≤ '9')

/-- `[a-fA-F0-9]{1,4}`. -/
def hexGroup : Regex := (Regex.chars isHex).oneTo 4

/-- `([a-fA-F0-9]{1,4}:{1,2})+[a-fA-F0-9]{1,4}`. -/
def hexGroups : Regex :=
  .seq (Regex.plus (.seq hexGroup ((Regex.char ':').oneTo 2))) hexGroup

/-- The expression of `is_ipv6_str`. -/
def ipv6Regex (unicodeDigit : Char → Bool) : Regex :=
  .alt hexGroups
    (.seq (Regex.char '[') (.seq hexGroups (.seq (Regex.char ']')
      (.seq (Regex.char ':') (Regex.chars unicodeDigit).plus))))

def isIpv6Str (unicodeDigit : Char → Bool) (id : Text) : Bool :=
  (ipv6Regex unicodeDigit).isMatch id

/-! ## The port helpers -/

/-- `split` at a pattern of two characters. -/
def splitOnPair (a b : Char) : Text → List Text
  | [] => [[]]
  | [c] => [[c]]
  | c :: d :: rest =>
      if c = a ∧ d = b then [] :: splitOnPair a b rest
      else (splitOnPair a b (d :: rest)).modifyHead (c :: ·)

/-- `starts_with('[')`. -/
def startsWithBracket (host : Text) : Bool := host.head? == some '['

section

variable (unicodeDigit : Char → Bool)

def checkPort (host : Text) (port : Int) : Text :=
  if isIpv6Str unicodeDigit host then
    if startsWithBracket host then host
    else '[' :: host ++ ']' :: ':' :: decimalInt port
  else if ¬ host.contains ':' then host ++ ':' :: decimalInt port
  else host

def increasePort (host : Text) (offset : Int) : Text :=
  if isIpv6Str unicodeDigit host then
    if startsWithBracket host then
      match splitOnPair ']' ':' host with
      | [front, back] =>
          let port := (parseI32 back).getD 0
          if port > 0 then front ++ ']' :: ':' :: decimalInt (wrapI32 (port + offset)) else host
      | _ => host
    else host
  else if host.contains ':' then
    match host.splitOn ':' with
    | [front, back] =>
        let port := (parseI32 back).getD 0
        if port > 0 then front ++ ':' :: decimalInt (wrapI32 (port + offset)) else host
    | _ => host
  else host

def splitHostPort (host : Text) : Option (Text × Int) :=
  if isIpv6Str unicodeDigit host then
    if startsWithBracket host then
      match splitOnPair ']' ':' host with
      | [front, back] =>
          let port := (parseI32 back).getD 0
          if port > 0 then some (front ++ [']'], port) else none
      | _ => none
    else none
  else if host.contains ':' then
    match host.splitOn ':' with
    | [front, back] =>
        let port := (parseI32 back).getD 0
        if port > 0 then some (front, port) else none
    | _ => none
  else none

end

/-! ## Hosts -/

/-- A group of an IPv6 literal. -/
def IsGroup (g : Text) : Prop := g ≠ [] ∧ g.length ≤ 4 ∧ g.all isHex = true

/-- Groups with a colon between them. -/
def joinGroups (groups : List Text) : Text := [':'].intercalate groups

/-- `a.b.c.d`. -/
def IsIpv4Literal (s : Text) : Prop :=
  ∃ a b c d : Nat, a < 256 ∧ b < 256 ∧ c < 256 ∧ d < 256 ∧
    s = decimal a ++ '.' :: (decimal b ++ '.' :: (decimal c ++ '.' :: decimal d))

/-- An IPv6 literal: eight groups, or fewer around one `::`; the last two groups may be
written as an IPv4 address. -/
inductive IsIpv6Literal : Text → Prop
  | full {groups : List Text} (hgroups : ∀ g ∈ groups, IsGroup g) (hcount : groups.length = 8) :
      IsIpv6Literal (joinGroups groups)
  | short {left right : List Text} (hleft : ∀ g ∈ left, IsGroup g)
      (hright : ∀ g ∈ right, IsGroup g) (hcount : left.length + right.length ≤ 7) :
      IsIpv6Literal (joinGroups left ++ ':' :: ':' :: joinGroups right)
  | fullV4 {groups : List Text} {v4 : Text} (hgroups : ∀ g ∈ groups, IsGroup g)
      (hcount : groups.length = 6) (hv4 : IsIpv4Literal v4) :
      IsIpv6Literal (joinGroups (groups ++ [v4]))
  | shortV4 {left right : List Text} {v4 : Text} (hleft : ∀ g ∈ left, IsGroup g)
      (hright : ∀ g ∈ right, IsGroup g) (hcount : left.length + right.length ≤ 5)
      (hv4 : IsIpv4Literal v4) :
      IsIpv6Literal (joinGroups left ++ ':' :: ':' :: joinGroups (right ++ [v4]))

/-- The characters of DNS names and IPv4 literals. -/
def isNameChar (c : Char) : Bool := c.isAlphanum || c == '-' || c == '.'

/-- A host without a port: a DNS name or an IPv4 literal, or an IPv6 literal without or with
brackets. -/
inductive Host
  | name (text : Text) (h : text.all isNameChar = true)
  | v6 (literal : Text) (h : IsIpv6Literal literal)
  | bracketed (literal : Text) (h : IsIpv6Literal literal)

namespace Host

/-- The host as it is given. -/
def text : Host → Text
  | .name text _ => text
  | .v6 literal _ => literal
  | .bracketed literal _ => '[' :: literal ++ [']']

/-- The host in front of a port: an IPv6 literal stands in brackets. -/
def printed : Host → Text
  | .name text _ => text
  | .v6 literal _ => '[' :: literal ++ [']']
  | .bracketed literal _ => '[' :: literal ++ [']']

end Host

end HbbCommon.Net
