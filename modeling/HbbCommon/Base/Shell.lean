import HbbCommon.Base.Text

/-!
# The quoting rules of a POSIX shell

The lexer of a shell reads a command text character by character and cuts it into words and
operators. Single quotes keep every character up to the next single quote, an unquoted
backslash keeps the character behind it, double quotes keep all but expansions. What a
letter of a word was quoted by is gone afterwards; that it was quoted is not, since only an
unquoted one is expanded later.
-/

namespace HbbCommon.Base.Shell

/-- A character of a word, and whether the shell takes it as it stands. -/
structure Letter where
  char : Char
  literal : Bool
  deriving DecidableEq, Repr

inductive Token
  | word (letters : List Letter)
  | operator (c : Char)
  deriving DecidableEq, Repr

inductive Mode
  | unquoted
  /-- behind an unquoted backslash -/
  | escaped
  | single
  | double
  /-- behind a backslash in double quotes -/
  | doubleEscaped
  | comment
  deriving DecidableEq, Repr

/-- The word whose letters are exactly the characters of a text. -/
def literalWord (s : Text) : Token := .word (s.map (fun c => ⟨c, true⟩))

/-- What the lexer knows between two characters. -/
structure Lexer where
  tokens : List Token
  /-- the word in progress -/
  word : Option (List Letter)
  mode : Mode
  deriving DecidableEq, Repr

namespace Lexer

def start : Lexer := { tokens := [], word := none, mode := .unquoted }

def AtWordStart (l : Lexer) : Prop := l.mode = .unquoted ∧ l.word = none

instance (l : Lexer) : Decidable l.AtWordStart := inferInstanceAs (Decidable (_ ∧ _))

/-- A quote begins a word even when nothing is in it. -/
def openWord (l : Lexer) : Lexer := { l with word := some (l.word.getD []) }

def letter (l : Lexer) (c : Char) (literal : Bool) : Lexer :=
  { l with word := some (l.word.getD [] ++ [⟨c, literal⟩]) }

/-- The word in progress is complete. -/
def cut (l : Lexer) : Lexer :=
  match l.word with
  | none => l
  | some letters => { l with tokens := l.tokens ++ [.word letters], word := none }

def operator (l : Lexer) (c : Char) : Lexer :=
  { l.cut with tokens := l.cut.tokens ++ [.operator c] }

def isBlank (c : Char) : Bool := c = ' ' || c = '\t'

def isOperator (c : Char) : Bool := c ∈ ['\n', '&', '|', ';', '<', '>', '(', ')']

def step (l : Lexer) (c : Char) : Lexer :=
  match l.mode with
  | .unquoted =>
      if c = '\'' then { l.openWord with mode := .single }
      else if c = '"' then { l.openWord with mode := .double }
      else if c = '\\' then { l with mode := .escaped }
      else if isBlank c then l.cut
      else if isOperator c then l.operator c
      else if c = '#' ∧ l.word = none then { l with mode := .comment }
      else l.letter c false
  | .escaped =>
      -- a backslash and a newline are nothing at all
      if c = '\n' then { l with mode := .unquoted }
      else { l.letter c true with mode := .unquoted }
  | .single =>
      if c = '\'' then { l with mode := .unquoted } else l.letter c true
  | .double =>
      if c = '"' then { l with mode := .unquoted }
      else if c = '\\' then { l with mode := .doubleEscaped }
      else l.letter c (c ≠ '$' && c.toNat ≠ 96)
  | .doubleEscaped =>
      if c = '\n' then { l with mode := .double }
      else if c = '$' ∨ c.toNat = 96 ∨ c = '"' ∨ c = '\\' then
        { l.letter c true with mode := .double }
      else { (l.letter '\\' true).letter c true with mode := .double }
  | .comment => if c = '\n' then { l.operator c with mode := .unquoted } else l

def run (l : Lexer) (text : Text) : Lexer := text.foldl step l

@[simp] theorem run_nil (l : Lexer) : l.run [] = l := rfl

@[simp] theorem run_cons (l : Lexer) (c : Char) (text : Text) :
    l.run (c :: text) = (l.step c).run text := rfl

theorem run_append (l : Lexer) (a b : Text) : l.run (a ++ b) = (l.run a).run b :=
  List.foldl_append

/-- At the start of a word there is nothing to complete. -/
theorem cut_of_atWordStart {l : Lexer} (h : l.AtWordStart) : l.cut = l := by
  unfold cut
  rw [h.2]

/-! ## Single quotes -/

theorem step_quote_of_unquoted {l : Lexer} (h : l.mode = .unquoted) :
    l.step '\'' = { l.openWord with mode := .single } := by
  unfold step
  rw [h]
  exact if_pos rfl

theorem step_backslash_of_unquoted {l : Lexer} (h : l.mode = .unquoted) :
    l.step '\\' = { l with mode := .escaped } := by
  unfold step
  rw [h]
  rfl

theorem step_of_escaped {l : Lexer} (h : l.mode = .escaped) {c : Char} (hc : c ≠ '\n') :
    l.step c = { l.letter c true with mode := .unquoted } := by
  unfold step
  rw [h]
  exact if_neg hc

theorem step_quote_of_single {l : Lexer} (h : l.mode = .single) :
    l.step '\'' = { l with mode := .unquoted } := by
  unfold step
  rw [h]
  exact if_pos rfl

theorem step_of_single {l : Lexer} (h : l.mode = .single) {c : Char} (hc : c ≠ '\'') :
    l.step c = l.letter c true := by
  unfold step
  rw [h]
  exact if_neg hc

end Lexer

/-- What a whole command text is cut into. -/
def tokens (text : Text) : List Token := (Lexer.start.run text).cut.tokens

end HbbCommon.Base.Shell
