import HbbCommon.Base.Shell

/-!
# Words of a shell command

`shell_quote` puts a text between single quotes. A single quote in the text ends the quoted
section, stands behind a backslash and begins the next section.
-/

namespace HbbCommon.Platform

open HbbCommon.Base
open HbbCommon.Base.Shell

/-- `s.replace("'", "'\\''")`, at one character. -/
def quoteChar (c : Char) : Text := if c = '\'' then ['\'', '\\', '\'', '\''] else [c]

def shellQuote (s : Text) : Text := '\'' :: (s.flatMap quoteChar ++ ['\''])

example : shellQuote "it's".toList = "'it'\\''s'".toList := by decide

/-- Inside the quotes with the letters `w` of the word read. -/
def quoting (tokens : List Token) (w : List Letter) : Lexer :=
  { tokens := tokens, word := some w, mode := .single }

/-- What stands for one character of the text adds that character to the word, and leaves
the lexer inside single quotes. -/
theorem run_quoteChar (tokens : List Token) (w : List Letter) (c : Char) :
    (quoting tokens w).run (quoteChar c) = quoting tokens (w ++ [⟨c, true⟩]) := by
  unfold quoteChar
  by_cases hc : c = '\''
  · -- out of the quotes, the escaped quote, and into the next section
    subst hc
    rw [if_pos rfl, Lexer.run_cons, Lexer.step_quote_of_single rfl, Lexer.run_cons,
      Lexer.step_backslash_of_unquoted rfl, Lexer.run_cons, Lexer.step_of_escaped rfl (by decide),
      Lexer.run_cons, Lexer.step_quote_of_unquoted rfl, Lexer.run_nil]
    rfl
  · rw [if_neg hc, Lexer.run_cons, Lexer.step_of_single rfl hc, Lexer.run_nil]
    rfl

theorem run_flatMap_quoteChar (tokens : List Token) (w : List Letter) (s : Text) :
    (quoting tokens w).run (s.flatMap quoteChar) =
      quoting tokens (w ++ s.map (fun c => ⟨c, true⟩)) := by
  induction s generalizing w with
  | nil => simp
  | cons c s ih =>
      rw [List.flatMap_cons, Lexer.run_append, run_quoteChar, ih, List.map_cons, List.append_assoc]
      rfl

/-- From the start of a word a quoted text is one word in progress. -/
theorem run_shellQuote {l : Lexer} (h : l.AtWordStart) (s : Text) :
    l.run (shellQuote s) =
      { tokens := l.tokens, word := some (s.map (fun c => ⟨c, true⟩)), mode := .unquoted } := by
  obtain ⟨hmode, hword⟩ := h
  have hopen : { l.openWord with mode := .single } = quoting l.tokens [] := by
    unfold Lexer.openWord quoting
    rw [hword]
    rfl
  unfold shellQuote
  rw [Lexer.run_cons, Lexer.step_quote_of_unquoted hmode, hopen, Lexer.run_append,
    run_flatMap_quoteChar, Lexer.run_cons, Lexer.step_quote_of_single rfl, Lexer.run_nil,
    List.nil_append]
  rfl

/-- Behind a command text that leaves the lexer at the start of a word, a quoted text is
exactly one word more, that word is the text, and the lexer is out of all quotes. -/
theorem shellQuote_is_one_word (p s : Text) (hp : (Lexer.start.run p).AtWordStart) :
    tokens (p ++ shellQuote s) = tokens p ++ [literalWord s] ∧
      (Lexer.start.run (p ++ shellQuote s)).mode = .unquoted := by
  unfold tokens
  rw [Lexer.run_append, run_shellQuote hp, Lexer.cut_of_atWordStart hp]
  exact ⟨rfl, rfl⟩

theorem shellQuote_is_one_word_sample :
    (Lexer.start.run "rm -- ".toList).AtWordStart ∧
      tokens ("rm -- ".toList ++ shellQuote "'it's".toList) =
        tokens "rm -- ".toList ++ [literalWord "'it's".toList] :=
  ⟨by decide, (shellQuote_is_one_word "rm -- ".toList "'it's".toList (by decide)).1⟩

end HbbCommon.Platform
