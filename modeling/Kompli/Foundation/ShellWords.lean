import Kompli.Foundation.Bytes
import Mathlib.Data.List.Forall2

/-! How a POSIX shell cuts a command into words and operators, and removes the quotes. An expansion is where the reading
ends: what it would put into the command is not known. -/
namespace Kompli.Foundation.ShellWords

def singleQuote : UInt8 := 0x27
def doubleQuote : UInt8 := 0x22
def backslash : UInt8 := 0x5C
def dollar : UInt8 := 0x24
def backquote : UInt8 := 0x60
def newline : UInt8 := 0x0A

/-- Where the shell is in the command. The backslashes are those whose next byte is still to come. -/
inductive Quote where
  | plain
  | backslash
  | single
  | double
  | doubleBackslash
  | comment
  | expansion
  deriving DecidableEq

/-- A byte of a word. Only bare bytes can mean a pattern, an assignment or a word of the language. A hole stands for
bytes that are filled in later. -/
inductive Piece where
  | quoted (c : UInt8)
  | bare (c : UInt8)
  | hole
  deriving DecidableEq

inductive Token where
  | word (pieces : List Piece)
  | operator (c : UInt8)
  deriving DecidableEq

structure Reader where
  quote : Quote := .plain
  tokens : List Token := []
  word : Option (List Piece) := none
  deriving DecidableEq

def isBlank (c : UInt8) : Bool := c = 0x20 || c = 0x09

def isOperator (c : UInt8) : Bool := c ∈ newline :: utf8 "|&;<>()"

/-- A dollar sign or a backquote, whatever comes after it. -/
def expands (c : UInt8) : Bool := c = dollar || c = backquote

/-- The bytes that a backslash quotes between double quotes. -/
def isEscapable (c : UInt8) : Bool := expands c || c = doubleQuote || c = backslash

namespace Reader

def enter (r : Reader) (quote : Quote) : Reader := { r with quote }

def add (r : Reader) (pieces : List Piece) : Reader := { r with word := some (r.word.getD [] ++ pieces) }

/-- The word ends here, if there is one. -/
def close (r : Reader) : Reader :=
  match r.word with
  | none => r
  | some pieces => { r with tokens := r.tokens ++ [.word pieces], word := none }

def emit (r : Reader) (c : UInt8) : Reader := { r with tokens := r.tokens ++ [.operator c] }

def stepPlain (r : Reader) (c : UInt8) : Reader :=
  if c = singleQuote then (r.add []).enter .single
  else if c = doubleQuote then (r.add []).enter .double
  else if c = ShellWords.backslash then r.enter .backslash
  else if expands c then r.enter .expansion
  else if isBlank c then r.close
  else if isOperator c then r.close.emit c
  else if c = 0x23 ∧ r.word = none then r.enter .comment
  else r.add [.bare c]

def stepDouble (r : Reader) (c : UInt8) : Reader :=
  if c = doubleQuote then r.enter .plain
  else if c = ShellWords.backslash then r.enter .doubleBackslash
  else if expands c then r.enter .expansion
  else r.add [.quoted c]

/-- A backslash before a newline joins the lines. -/
def step (r : Reader) (c : UInt8) : Reader :=
  match r.quote with
  | .plain => r.stepPlain c
  | .backslash => if c = newline then r.enter .plain else (r.add [.quoted c]).enter .plain
  | .single => if c = singleQuote then r.enter .plain else r.add [.quoted c]
  | .double => r.stepDouble c
  | .doubleBackslash =>
    if c = newline then r.enter .double
    else if isEscapable c then (r.add [.quoted c]).enter .double
    else (r.add [.quoted ShellWords.backslash, .quoted c]).enter .double
  | .comment => if c = newline then (r.enter .plain).emit c else r
  | .expansion => r

def run (r : Reader) (text : Bytes) : Reader := text.foldl step r

/-- The tokens of a command that ends here, where no quote is open and nothing is expanded. -/
def complete (r : Reader) : Option (List Token) :=
  if r.quote = .plain ∨ r.quote = .comment then some r.close.tokens else none

@[simp] theorem run_nil (r : Reader) : r.run [] = r := rfl

@[simp] theorem run_cons (r : Reader) (c : UInt8) (text : Bytes) : r.run (c :: text) = (r.step c).run text := rfl

theorem run_append (r : Reader) (text rest : Bytes) : r.run (text ++ rest) = (r.run text).run rest := List.foldl_append

@[simp] theorem enter_quote (r : Reader) (quote : Quote) : (r.enter quote).quote = quote := rfl
@[simp] theorem add_quote (r : Reader) (pieces : List Piece) : (r.add pieces).quote = r.quote := rfl
@[simp] theorem enter_enter (r : Reader) (quote quote' : Quote) : (r.enter quote).enter quote' = r.enter quote' := rfl
@[simp] theorem enter_add (r : Reader) (pieces : List Piece) (quote : Quote) :
    (r.enter quote).add pieces = (r.add pieces).enter quote := rfl

theorem enter_self {r : Reader} {quote : Quote} (h : r.quote = quote) : r.enter quote = r := by
  rw [enter, ← h]

@[simp] theorem add_add (r : Reader) (pieces more : List Piece) : (r.add pieces).add more = r.add (pieces ++ more) := by
  simp only [add, Option.getD_some, List.append_assoc]

end Reader

/-- What the shell makes of a command, up to the NUL that ends it. -/
def readCommand (command : Bytes) : Reader := Reader.run {} (cString command)

def Piece.fill (filling : List Piece) : Piece → List Piece
  | .hole => filling
  | piece => [piece]

def Token.fill (filling : List Piece) : Token → Token
  | .word pieces => .word (pieces.flatMap (Piece.fill filling))
  | .operator c => .operator c

def Reader.fill (filling : List Piece) (r : Reader) : Reader :=
  { r with tokens := r.tokens.map (Token.fill filling), word := r.word.map (·.flatMap (Piece.fill filling)) }

section Fill

variable {filling : List Piece} {r : Reader}

@[simp] theorem fill_quote : (r.fill filling).quote = r.quote := rfl

@[simp] theorem fill_start : Reader.fill filling {} = {} := rfl

@[simp] theorem fill_enter (quote : Quote) : (r.enter quote).fill filling = (r.fill filling).enter quote := rfl

theorem fill_add (pieces : List Piece) :
    (r.add pieces).fill filling = (r.fill filling).add (pieces.flatMap (Piece.fill filling)) := by
  cases hword : r.word <;> simp [Reader.fill, Reader.add, hword]

@[simp] theorem fill_close : r.close.fill filling = (r.fill filling).close := by
  cases hword : r.word <;> simp [Reader.fill, Reader.close, hword, Token.fill]

@[simp] theorem fill_emit (c : UInt8) : (r.emit c).fill filling = (r.fill filling).emit c := by
  simp [Reader.fill, Reader.emit, Token.fill]

theorem fill_word : (r.fill filling).word = none ↔ r.word = none := Option.map_eq_none_iff

theorem fill_stepPlain (c : UInt8) : (r.stepPlain c).fill filling = (r.fill filling).stepPlain c := by
  unfold Reader.stepPlain
  split_ifs with _ _ _ _ _ _ hcomment hcomment' hcomment' <;>
    first | rfl | simp [fill_add, Piece.fill]
  · exact absurd ⟨hcomment.1, fill_word.mpr hcomment.2⟩ hcomment'
  · exact absurd ⟨hcomment'.1, fill_word.mp hcomment'.2⟩ hcomment

theorem fill_stepDouble (c : UInt8) : (r.stepDouble c).fill filling = (r.fill filling).stepDouble c := by
  unfold Reader.stepDouble
  split_ifs <;> simp [fill_add, Piece.fill]

/-- The shell never looks at what is in a word. -/
theorem fill_step (c : UInt8) : (r.step c).fill filling = (r.fill filling).step c := by
  unfold Reader.step
  rw [fill_quote]
  cases r.quote with
  | plain => exact fill_stepPlain c
  | double => exact fill_stepDouble c
  | expansion => rfl
  | _ => split_ifs <;> simp [fill_add, Piece.fill]

theorem fill_run (text : Bytes) : (r.run text).fill filling = (r.fill filling).run text := by
  induction text generalizing r with
  | nil => rfl
  | cons c text ih => rw [Reader.run_cons, Reader.run_cons, ih, fill_step]

/-- What is put in the place of the hole is all that differs. -/
theorem run_fill (before after : Bytes) (filling : List Piece) :
    ((Reader.run {} before).add filling).run after =
      (((Reader.run {} before).add [.hole]).run after).fill filling := by
  rw [fill_run, fill_add, fill_run, fill_start, List.flatMap_singleton, Piece.fill]

end Fill

section Quoting

variable {r : Reader} {c : UInt8}

/-- A word has begun where a quote is open. -/
def Begun (r : Reader) : Prop :=
  r.quote = .single ∨ r.quote = .double ∨ r.quote = .doubleBackslash → r.word.isSome

theorem begun_add (pieces : List Piece) (quote : Quote) : Begun ((r.add pieces).enter quote) := fun _ => rfl

theorem Begun.enter (h : Begun r) (hquote : r.quote = .single ∨ r.quote = .double ∨ r.quote = .doubleBackslash)
    (quote : Quote) : Begun (r.enter quote) := fun _ => h hquote

theorem begun_of_quote (h : ¬(r.quote = .single ∨ r.quote = .double ∨ r.quote = .doubleBackslash)) : Begun r :=
  fun hquote => absurd hquote h

theorem close_quote : r.close.quote = r.quote := by
  unfold Reader.close
  split <;> rfl

theorem begun_stepPlain (h : r.quote = .plain) : Begun (r.stepPlain c) := by
  unfold Reader.stepPlain
  split_ifs
  · exact begun_add [] .single
  · exact begun_add [] .double
  · exact begun_of_quote (by simp)
  · exact begun_of_quote (by simp)
  · exact begun_of_quote (by simp [close_quote, h])
  · exact begun_of_quote (by simp [Reader.emit, close_quote, h])
  · exact begun_of_quote (by simp)
  · exact begun_of_quote (by simp [h])

theorem Begun.step (h : Begun r) (c : UInt8) : Begun (r.step c) := by
  unfold Reader.step
  cases hquote : r.quote with
  | plain => exact begun_stepPlain hquote
  | backslash =>
    dsimp only
    split_ifs
    · exact begun_of_quote (by simp)
    · exact begun_add [.quoted c] .plain
  | single =>
    dsimp only
    split_ifs
    · exact h.enter (.inl hquote) .plain
    · exact fun _ => rfl
  | double =>
    dsimp only
    unfold Reader.stepDouble
    split_ifs
    · exact h.enter (.inr (.inl hquote)) .plain
    · exact h.enter (.inr (.inl hquote)) .doubleBackslash
    · exact h.enter (.inr (.inl hquote)) .expansion
    · exact fun _ => rfl
  | doubleBackslash =>
    dsimp only
    split_ifs
    · exact h.enter (.inr (.inr hquote)) .double
    · exact begun_add _ .double
    · exact begun_add _ .double
  | comment =>
    dsimp only
    split_ifs
    · exact begun_of_quote (by simp [Reader.emit])
    · exact h
  | expansion => exact h

theorem Begun.run (h : Begun r) (text : Bytes) : Begun (r.run text) := by
  induction text generalizing r with
  | nil => exact h
  | cons c text ih => exact ih (h.step c)

theorem begun_start (text : Bytes) : Begun (Reader.run {} text) := Begun.run (begun_of_quote (by simp)) text

theorem add_nil (h : r.word.isSome) : r.add [] = r := by
  obtain ⟨pieces, hword⟩ := Option.isSome_iff_exists.mp h
  rw [Reader.add, hword, Option.getD_some, List.append_nil, ← hword]

theorem run_single (h : r.quote = .single) (hc : c ≠ singleQuote) : r.run [c] = r.add [.quoted c] := by
  rw [Reader.run_cons, Reader.run_nil, Reader.step, h]
  exact if_neg hc

/-- The quotes are closed for a single quote that a backslash quotes. -/
theorem run_single_broken (h : r.quote = .single) :
    r.run [singleQuote, backslash, singleQuote, singleQuote] = r.add [.quoted singleQuote] := by
  have hclose : r.step singleQuote = r.enter .plain := by rw [Reader.step, h]; exact if_pos rfl
  rw [Reader.run_cons, hclose]
  have hback : (r.enter .plain).step backslash = r.enter .backslash := rfl
  rw [Reader.run_cons, hback]
  have hquoted : (r.enter .backslash).step singleQuote = (r.add [.quoted singleQuote]).enter .plain := rfl
  rw [Reader.run_cons, hquoted]
  have hopen : ((r.add [.quoted singleQuote]).enter .plain).step singleQuote =
      ((r.add [.quoted singleQuote]).add []).enter .single := rfl
  rw [Reader.run_cons, hopen, Reader.run_nil, Reader.add_add, List.append_nil]
  exact Reader.enter_self h

theorem run_double (h : r.quote = .double) (hc : isEscapable c = false) : r.run [c] = r.add [.quoted c] := by
  simp only [isEscapable, Bool.or_eq_false_iff, decide_eq_false_iff_not] at hc
  rw [Reader.run_cons, Reader.run_nil, Reader.step, h]
  dsimp only
  rw [Reader.stepDouble, if_neg hc.1.2, if_neg hc.2, if_neg (by simp [hc.1.1])]

theorem run_escaped (h : r.quote = .double) (hc : isEscapable c = true) : r.run [backslash, c] = r.add [.quoted c] := by
  have hnewline : c ≠ newline := by
    rintro rfl
    exact absurd hc (by decide)
  have hback : r.step backslash = r.enter .doubleBackslash := by rw [Reader.step, h]; rfl
  rw [Reader.run_cons, hback, Reader.run_cons, Reader.run_nil, Reader.step, Reader.enter_quote]
  dsimp only
  rw [if_neg hnewline, if_pos hc, Reader.enter_add, Reader.enter_enter]
  exact Reader.enter_self h

/-- A value is read as it is where each of its bytes is. -/
theorem run_flatMap {quote : Quote} {encode : UInt8 → Bytes}
    (hbyte : ∀ (r : Reader) c, r.quote = quote → r.run (encode c) = r.add [.quoted c]) (h : r.quote = quote)
    (hword : r.word.isSome) (value : Bytes) : r.run (value.flatMap encode) = r.add (value.map .quoted) := by
  induction value generalizing r with
  | nil => exact (add_nil hword).symm
  | cons c value ih =>
    have hquote : (r.add [.quoted c]).quote = quote := h
    rw [List.flatMap_cons, Reader.run_append, hbyte r c h, ih hquote rfl, Reader.add_add]
    rfl

end Quoting

section Spelling

/-- The byte stands for itself: bare it is not a sign of a pattern, nor of a home directory. -/
inductive Piece.Spells : Piece → UInt8 → Prop
  | quoted (c : UInt8) : Spells (.quoted c) c
  | bare (c : UInt8) (h : c ∉ utf8 "*?[~") : Spells (.bare c) c

/-- The command is these words and nothing else. -/
def ReadsAs (command : Bytes) (words : List Bytes) : Prop :=
  ∃ pieces : List (List Piece), (readCommand command).complete = some (pieces.map .word) ∧
    List.Forall₂ (List.Forall₂ Piece.Spells) pieces words

/-- The text stands for the word, or a part of one, wherever no quote is open. -/
structure Writes (text word : Bytes) : Prop where
  nulFree : NulFree text
  reads : ∃ pieces, List.Forall₂ Piece.Spells pieces word ∧ ∀ r : Reader, r.quote = .plain → r.run text = r.add pieces

/-- Nothing that means more to a shell than itself. -/
def isLiteral (c : UInt8) : Bool :=
  !(c = 0 || c = singleQuote || c = doubleQuote || c = backslash || expands c || isBlank c || isOperator c || c = 0x23 ||
    c ∈ utf8 "*?[~")

variable {text more word rest : Bytes} {c : UInt8}

theorem isLiteral_iff : isLiteral c = true ↔ c ≠ 0 ∧ c ≠ singleQuote ∧ c ≠ doubleQuote ∧ c ≠ backslash ∧
    expands c = false ∧ isBlank c = false ∧ isOperator c = false ∧ c ≠ 0x23 ∧ c ∉ utf8 "*?[~" := by
  simp [isLiteral, and_assoc]

theorem run_literal {r : Reader} (h : r.quote = .plain) (hc : isLiteral c = true) : r.run [c] = r.add [.bare c] := by
  obtain ⟨-, hsingle, hdouble, hback, hexpands, hblank, hoperator, hcomment, -⟩ := isLiteral_iff.mp hc
  rw [Reader.run_cons, Reader.run_nil, Reader.step, h]
  dsimp only
  rw [Reader.stepPlain, if_neg hsingle, if_neg hdouble, if_neg hback, if_neg (Bool.eq_false_iff.mp hexpands),
    if_neg (Bool.eq_false_iff.mp hblank), if_neg (Bool.eq_false_iff.mp hoperator), if_neg fun h => hcomment h.1]

theorem Writes.append (h : Writes text word) (h' : Writes more rest) : Writes (text ++ more) (word ++ rest) := by
  obtain ⟨pieces, hspells, hreads⟩ := h.reads
  obtain ⟨pieces', hspells', hreads'⟩ := h'.reads
  constructor
  · rw [NulFree, List.mem_append, not_or]
    exact ⟨h.nulFree, h'.nulFree⟩
  · refine ⟨pieces ++ pieces', List.rel_append hspells hspells', fun r hr => ?_⟩
    have hplain : (r.add pieces).quote = .plain := hr
    rw [Reader.run_append, hreads r hr, hreads' _ hplain, Reader.add_add]

theorem writes_literal (hne : text ≠ []) (h : text.all isLiteral = true) : Writes text text := by
  induction text with
  | nil => exact absurd rfl hne
  | cons c text ih =>
    rw [List.all_cons, Bool.and_eq_true] at h
    have hc := isLiteral_iff.mp h.1
    have hfirst : Writes [c] [c] := by
      refine ⟨?_, [.bare c], .cons (.bare c hc.2.2.2.2.2.2.2.2) .nil, fun r hr => run_literal hr h.1⟩
      rw [NulFree, List.mem_singleton]
      exact hc.1.symm
    cases text with
    | nil => exact hfirst
    | cons d text => exact hfirst.append (ih (List.cons_ne_nil d text) h.2)

theorem run_inside {r : Reader} (hquote : r.quote = .single) (hword : r.word.isSome) (h : singleQuote ∉ text) :
    r.run text = r.add (text.map .quoted) := by
  induction text generalizing r with
  | nil => exact (add_nil hword).symm
  | cons c text ih =>
    rw [List.mem_cons, not_or] at h
    have hstep : r.step c = r.add [.quoted c] := run_single hquote (Ne.symm h.1)
    have hnext : (r.add [.quoted c]).quote = .single := hquote
    rw [Reader.run_cons, hstep, ih hnext rfl h.2, Reader.add_add]
    rfl

theorem writes_single (hnul : NulFree text) (h : singleQuote ∉ text) :
    Writes (singleQuote :: text ++ [singleQuote]) text := by
  refine ⟨?_, text.map .quoted, ?_, fun r hr => ?_⟩
  · rw [NulFree, List.mem_append, List.mem_cons, List.mem_singleton, not_or, not_or]
    exact ⟨⟨by decide, hnul⟩, by decide⟩
  · induction text with
    | nil => exact .nil
    | cons c text ih =>
      exact .cons (.quoted c) (ih (fun hc => hnul (List.mem_cons_of_mem c hc)) fun hc => h (List.mem_cons_of_mem c hc))
  · have hopen : r.step singleQuote = (r.add []).enter .single := by
      rw [Reader.step, hr]
      exact if_pos rfl
    have hsingle : ((r.add []).enter .single).quote = .single := rfl
    have hclose : (((r.add []).enter .single).add (text.map .quoted)).step singleQuote =
        ((r.add []).add (text.map .quoted)).enter .plain := rfl
    rw [List.cons_append, Reader.run_cons, hopen, Reader.run_append, run_inside hsingle rfl h, Reader.run_cons, hclose,
      Reader.run_nil, Reader.add_add, List.nil_append]
    exact Reader.enter_self hr

private theorem run_joined {texts words : List Bytes} (h : List.Forall₂ Writes texts words) {r : Reader}
    (hquote : r.quote = .plain) (hword : r.word = none) :
    ∃ pieces : List (List Piece), List.Forall₂ (List.Forall₂ Piece.Spells) pieces words ∧
      (r.run (List.intercalate [0x20] texts)).quote = .plain ∧
      (r.run (List.intercalate [0x20] texts)).close.tokens = r.tokens ++ pieces.map .word := by
  induction h generalizing r with
  | nil =>
    refine ⟨[], .nil, hquote, ?_⟩
    rw [List.intercalate_nil, Reader.run_nil, Reader.close, hword]
    exact (List.append_nil r.tokens).symm
  | @cons text word texts words htext hrest ih =>
    obtain ⟨first, hfirst, hreads⟩ := htext.reads
    have hclosed : (r.add first).close = { r with tokens := r.tokens ++ [.word first], word := none } := by
      rw [Reader.close, Reader.add, hword]
      rfl
    cases hrest with
    | nil =>
      refine ⟨[first], .cons hfirst .nil, ?_, ?_⟩
      · rw [List.intercalate_singleton, hreads r hquote]
        exact hquote
      · rw [List.intercalate_singleton, hreads r hquote, hclosed]
        rfl
    | @cons next _ nexts _ _ _ =>
      have hblank : (r.add first).step 0x20 = (r.add first).close := by
        have hplain : (r.add first).quote = .plain := hquote
        rw [Reader.step, hplain]
        rfl
      have hrun : r.run (List.intercalate [0x20] (text :: next :: nexts)) =
          ((r.add first).close).run (List.intercalate [0x20] (next :: nexts)) := by
        rw [List.intercalate_cons_cons, Reader.run_append, Reader.run_append, hreads r hquote, Reader.run_cons,
          Reader.run_nil, hblank]
      have hplain : (r.add first).close.quote = .plain := by
        rw [close_quote]
        exact hquote
      obtain ⟨pieces, hpieces, hend, htokens⟩ := ih hplain (by rw [hclosed])
      refine ⟨first :: pieces, .cons hfirst hpieces, ?_, ?_⟩
      · rw [hrun, hend]
      · rw [hrun, htokens, hclosed]
        exact List.append_assoc ..

private theorem nulFree_joined {texts words : List Bytes} (h : List.Forall₂ Writes texts words) :
    NulFree (List.intercalate [0x20] texts) := by
  induction h with
  | nil => exact List.not_mem_nil
  | @cons text word texts words htext hrest ih =>
    cases hrest with
    | nil =>
      rw [List.intercalate_singleton]
      exact htext.nulFree
    | cons _ _ =>
      rw [NulFree, List.intercalate_cons_cons, List.mem_append, List.mem_append, not_or, not_or]
      exact ⟨⟨htext.nulFree, by decide⟩, ih⟩

/-- Texts with blanks between them are a command of as many words. -/
theorem reads_joined {texts words : List Bytes} (h : List.Forall₂ Writes texts words) :
    ReadsAs (List.intercalate [0x20] texts) words := by
  have hstart : Reader.quote {} = .plain := rfl
  obtain ⟨pieces, hpieces, hquote, htokens⟩ := run_joined h hstart rfl
  refine ⟨pieces, ?_, hpieces⟩
  rw [readCommand, cString_of_nulFree (nulFree_joined h), Reader.complete, if_pos (Or.inl hquote), htokens]
  rfl

end Spelling
end Kompli.Foundation.ShellWords
