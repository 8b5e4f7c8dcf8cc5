import Kompli.ComplianceEngine.StringTools
import Kompli.Foundation.ShellWords

/-! The two ways in which values are put into a command, and what a shell reads there. -/
namespace Kompli.ShellQuoting
open StringTools Foundation.ShellWords

def quoteForShell (value : Bytes) : Bytes :=
  singleQuote :: value.flatMap (fun character =>
    if character = singleQuote then [singleQuote, backslash, singleQuote, singleQuote] else [character]) ++ [singleQuote]

section Reading

variable {r : Reader}

theorem mem_escaped {c : UInt8} : c ∈ utf8 "\\\"`$" ↔ isEscapable c = true := by
  have hchars : utf8 "\\\"`$" = [backslash, doubleQuote, backquote, dollar] := by decide
  simp only [hchars, List.mem_cons, List.not_mem_nil, or_false, isEscapable, expands, Bool.or_eq_true, decide_eq_true_eq]
  tauto

theorem run_escapeForShell (h : r.quote = .double) (hword : r.word.isSome) (str : Bytes) :
    r.run (escapeForShell str) = r.add (str.map .quoted) := by
  refine run_flatMap (fun r c hquote => ?_) h hword str
  split_ifs with hc
  · exact run_escaped hquote (mem_escaped.mp hc)
  · exact run_double hquote (Bool.eq_false_iff.mpr (mt mem_escaped.mpr hc))

theorem run_quoteForShell (h : r.quote = .plain) (value : Bytes) :
    r.run (quoteForShell value) = r.add (value.map .quoted) := by
  have hopen : r.step singleQuote = (r.add []).enter .single := by
    rw [Reader.step, h]
    exact if_pos rfl
  have hinside : ((r.add []).enter .single).run (value.flatMap fun character =>
      if character = singleQuote then [singleQuote, backslash, singleQuote, singleQuote] else [character]) =
      ((r.add []).enter .single).add (value.map .quoted) := by
    have hsingle : ((r.add []).enter .single).quote = .single := rfl
    refine run_flatMap (fun r c hquote => ?_) hsingle rfl value
    split_ifs with hc
    · rw [hc]
      exact run_single_broken hquote
    · exact run_single hquote hc
  have hclose : (((r.add []).enter .single).add (value.map .quoted)).step singleQuote =
      ((r.add []).add (value.map .quoted)).enter .plain := rfl
  rw [quoteForShell, List.cons_append, Reader.run_cons, hopen, Reader.run_append, hinside, Reader.run_cons, hclose,
    Reader.run_nil, Reader.add_add, List.nil_append]
  exact Reader.enter_self h

end Reading

/-- The command around a value that is put between these texts. -/
def around (before after : Bytes) : Reader := ((Reader.run {} before).add [.hole]).run after

section Command

variable {before after value : Bytes}

theorem read_of_nulFree {command : Bytes} (h : NulFree command) : readCommand command = Reader.run {} command := by
  rw [readCommand, cString_of_nulFree h]

theorem nulFree_escapeForShell (h : NulFree value) : NulFree (escapeForShell value) := by
  intro hmem
  obtain ⟨c, hc, hnul⟩ := List.mem_flatMap.mp hmem
  have hne : c ≠ 0 := by
    rintro rfl
    exact h hc
  split_ifs at hnul <;> simp [hne.symm] at hnul

theorem nulFree_quoteForShell (h : NulFree value) : NulFree (quoteForShell value) := by
  have hquote : (0 : UInt8) ∉ [singleQuote] := by decide
  have hbroken : (0 : UInt8) ∉ [singleQuote, backslash, singleQuote, singleQuote] := by decide
  rw [NulFree, quoteForShell, List.mem_append, List.mem_cons, not_or, not_or]
  refine ⟨⟨by decide, fun hmem => ?_⟩, hquote⟩
  obtain ⟨c, hc, hnul⟩ := List.mem_flatMap.mp hmem
  split_ifs at hnul with hsingle
  · exact hbroken hnul
  · rw [List.mem_singleton] at hnul
    exact h (hnul ▸ hc)

/-- The shell reads the text as the value, whatever it has read before and will read after it. -/
theorem read_around {text : Bytes} (hbefore : NulFree before) (htext : NulFree text) (hafter : NulFree after)
    (h : (Reader.run {} before).run text = (Reader.run {} before).add (value.map .quoted)) :
    readCommand (before ++ text ++ after) = (around before after).fill (value.map .quoted) := by
  have hcommand : NulFree (before ++ text ++ after) := by
    simp only [NulFree, List.mem_append, not_or]
    exact ⟨⟨hbefore, htext⟩, hafter⟩
  rw [read_of_nulFree hcommand, Reader.run_append, Reader.run_append, h, run_fill, around]

/-- Whatever a value is, the shell reads it as quoted, byte by byte, where it stands in quotes or is put in them, and reads
what is before and after it as if it were not there. -/
theorem quoting_faithful (hbefore : NulFree before) (hvalue : NulFree value) (hafter : NulFree after) :
    ((readCommand before).quote = .double →
      readCommand (before ++ escapeForShell value ++ after) = (around before after).fill (value.map .quoted)) ∧
    ((readCommand before).quote = .plain →
      readCommand (before ++ quoteForShell value ++ after) = (around before after).fill (value.map .quoted)) ∧
    (readCommand (doubleQuote :: escapeForShell value ++ [doubleQuote])).complete = some [.word (value.map .quoted)] ∧
    (readCommand (quoteForShell value)).complete = some [.word (value.map .quoted)] := by
  rw [read_of_nulFree hbefore]
  have hescape : ∀ text, (Reader.run {} text).quote = .double →
      (Reader.run {} text).run (escapeForShell value) = (Reader.run {} text).add (value.map .quoted) := by
    intro text hdouble
    exact run_escapeForShell hdouble (begun_start text (.inr (.inl hdouble))) value
  have hescaped := nulFree_escapeForShell hvalue
  have hquoted := nulFree_quoteForShell hvalue
  refine ⟨fun hdouble => ?_, fun hplain => ?_, ?_, ?_⟩
  · exact read_around hbefore hescaped hafter (hescape before hdouble)
  · exact read_around hbefore hquoted hafter (run_quoteForShell hplain value)
  · have hdelimiter : NulFree [doubleQuote] := by decide
    have hread := read_around hdelimiter hescaped hdelimiter (hescape [doubleQuote] rfl)
    rw [List.singleton_append] at hread
    rw [hread]
    simp [around, Reader.step, Reader.stepPlain, Reader.stepDouble, Reader.fill, Reader.complete, Reader.close,
      Reader.add, Reader.enter, Piece.fill, doubleQuote, singleQuote]
  · have hnil : NulFree [] := by decide
    have hread := read_around hnil hquoted hnil (run_quoteForShell rfl value)
    rw [List.nil_append, List.append_nil] at hread
    rw [hread]
    simp [around, Reader.fill, Reader.complete, Reader.close, Reader.add, Piece.fill]

/-- A value that would run a command, had it not been quoted. -/
theorem quoting_faithful_command : readCommand (utf8 "echo \"" ++ escapeForShell (utf8 "`a`\"$b") ++ utf8 "\" | c") =
    (around (utf8 "echo \"") (utf8 "\" | c")).fill ((utf8 "`a`\"$b").map .quoted) :=
  (quoting_faithful (by decide) (by decide) (by decide)).1 (by decide)

end Command
end Kompli.ShellQuoting
