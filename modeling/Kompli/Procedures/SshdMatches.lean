import Kompli.Foundation.MapEntries
import Kompli.Foundation.Words
import Kompli.Foundation.Worklist
import Kompli.Procedures.SshdOption

/-! The match contexts of `sshd`: when they are all collected, and when collecting them does not end. -/
namespace Kompli.SshdOption
open Foundation Streams Words Relation StringTools

variable {host : Host} {globbed : Bytes → List Bytes} {file line type value : Bytes}

section Worklist

/-- What a line adds to the files that are to be read, and to the contexts. -/
def lineAdds (host : Host) (line : Bytes) : MatchState := readLine host {} line

theorem readLine_eq (host : Host) (state : MatchState) (line : Bytes) :
    readLine host state line = { configFiles := state.configFiles ++ (lineAdds host line).configFiles
                                 allMatches := state.allMatches ++ (lineAdds host line).allMatches } := by
  rw [lineAdds]
  simp only [readLine]
  split_ifs <;> simp

/-- The files that a file includes. -/
def includes (host : Host) (file : Bytes) : List Bytes :=
  (host.files[file]?.elim [] lines).flatMap fun line => (lineAdds host line).configFiles

/-- The contexts of a file. -/
def contexts (host : Host) (file : Bytes) : List Bytes :=
  (host.files[file]?.elim [] lines).flatMap fun line => (lineAdds host line).allMatches

private theorem foldl_readLine (host : Host) (state : MatchState) (fileLines : List Bytes) :
    fileLines.foldl (readLine host) state =
      { configFiles := state.configFiles ++ fileLines.flatMap fun line => (lineAdds host line).configFiles
        allMatches := state.allMatches ++ fileLines.flatMap fun line => (lineAdds host line).allMatches } := by
  induction fileLines generalizing state with
  | nil => simp
  | cons line fileLines ih =>
    rw [List.foldl_cons, ih, readLine_eq]
    simp

theorem readFile_eq (host : Host) (state : MatchState) (file : Bytes) :
    readFile host state file = { configFiles := state.configFiles ++ includes host file
                                 allMatches := state.allMatches ++ contexts host file } := by
  rw [readFile, includes, contexts]
  cases host.files[file]? with
  | none => simp
  | some fileContent => exact foldl_readLine host state (lines fileContent)

/-- The loop works through a list of files, and forgets which it has read. -/
theorem matchLoop_eq (host : Host) (fuel : Nat) (configFiles allMatches : List Bytes) :
    matchLoop host fuel configFiles allMatches = Worklist.run (includes host) (contexts host) fuel configFiles allMatches := by
  induction fuel generalizing configFiles allMatches with
  | zero => cases configFiles <;> rfl
  | succ fuel ih =>
    cases configFiles with
    | nil => rfl
    | cons currentFile configFiles =>
      rw [matchLoop, readFile_eq, ih]
      rfl

theorem finite_includes (host : Host) : {file | includes host file ≠ []}.Finite := by
  refine Set.Finite.subset (List.finite_toSet host.files.keys) fun file hfile => ?_
  rw [Set.mem_ofPred_eq] at hfile ⊢
  rw [Std.ExtTreeMap.mem_keys, Std.ExtTreeMap.mem_iff_isSome_getElem?, Option.isSome_iff_ne_none]
  intro hnone
  rw [includes, hnone] at hfile
  exact hfile rfl

end Worklist

section Lines

/-- A line that starts with `Match` and a criterion of a type that is supported. -/
structure MatchLine (line type value : Bytes) : Prop where
  columns : ∃ directive criterion others, words blank line = directive :: criterion :: others ∧
    toLower directive = utf8 "match" ∧ toLower criterion = type ∧ toLower (others.headD []) = value
  supported : type ∈ supportedTypes

/-- A line that starts with `Include` and a name. -/
structure FollowedLine (line name : Bytes) : Prop where
  columns : ∃ directive others, words blank line = directive :: name :: others ∧ toLower directive = utf8 "include"

/-- An asterisk after the last slash is looked for below the directory; any other name is taken as it stands. -/
def TakenFor (host : Host) (name file : Bytes) : Prop :=
  (∃ directory pattern, name = directory ++ slash :: pattern ∧ slash ∉ pattern ∧ asterisk ∈ pattern ∧
    file ∈ host.filesFound directory pattern) ∨
  (∀ directory pattern, name = directory ++ slash :: pattern → slash ∉ pattern → asterisk ∉ pattern) ∧ file = name

def LineOf (host : Host) (file line : Bytes) : Prop :=
  ∃ fileContent, host.files[file]? = some fileContent ∧ line ∈ lines fileContent

private theorem nextWord_eq (stream : Bytes) : (nextWord stream).1 = (words blank stream).headD [] ∧
    words blank (nextWord stream).2 = (words blank stream).tail := by
  rcases word_eq stream with ⟨hnil, hnone⟩ | ⟨text, rest, hword, hwords⟩
  · rw [nextWord, hnone, hnil]
    exact ⟨rfl, words_nil⟩
  · rw [nextWord, hword, hwords]
    exact ⟨rfl, rfl⟩

private theorem words_stripped (line : Bytes) : words blank (line.dropWhile lineBlank) = words blank line := by
  induction line with
  | nil => rfl
  | cons c line ih =>
    cases hc : lineBlank c with
    | true =>
      have hblank : blank c = true := by
        rw [lineBlank, Bool.or_eq_true, decide_eq_true_eq, decide_eq_true_eq] at hc
        rcases hc with rfl | rfl <;> rfl
      rw [List.dropWhile_cons_of_pos hc, ih, words_cons hblank]
    | false => rw [List.dropWhile_cons_of_neg (by simp [hc])]

/-- A line that is empty or a comment has no directive. -/
private theorem directive_of_skipped {stream : Bytes} (h : stream = [] ∨ stream.head? = some StringTools.hash) :
    (words blank stream).headD [] = [] ∨ ((words blank stream).headD []).head? = some StringTools.hash := by
  rcases h with rfl | hhead
  · rw [words_nil]
    exact .inl rfl
  · obtain ⟨rest, rfl⟩ := List.head?_eq_some_iff.mp hhead
    rw [← (nextWord_eq _).1, nextWord, word, List.dropWhile_cons_of_neg (by decide),
      List.takeWhile_cons_of_pos (by decide), if_neg (List.cons_ne_nil _ _)]
    exact .inr rfl

/-- What a line adds hangs on its first three words. -/
theorem lineAdds_eq (host : Host) (line : Bytes) : lineAdds host line =
    if toLower ((words blank line).headD []) = utf8 "include" then
      { configFiles := includedFiles host ((words blank line).tail.headD []) }
    else if toLower ((words blank line).headD []) = utf8 "match" ∧
        toLower ((words blank line).tail.headD []) ∈ supportedTypes then
      { allMatches := (matchPatterns (toLower ((words blank line).tail.tail.headD []))).map
          (matchContext (toLower ((words blank line).tail.headD []))) }
    else {} := by
  rw [lineAdds, readLine, ← words_stripped line]
  generalize line.dropWhile lineBlank = stream
  obtain ⟨hfirst, hrest⟩ := nextWord_eq stream
  obtain ⟨hsecond, hrest'⟩ := nextWord_eq (nextWord stream).2
  have hthird := (nextWord_eq (nextWord (nextWord stream).2).2).1
  rw [hrest'] at hthird
  rw [hrest] at hsecond hthird
  by_cases hskip : stream = [] ∨ stream.head? = some StringTools.hash
  · rw [if_pos hskip]
    rcases directive_of_skipped hskip with hnil | hhash
    · rw [hnil]
      rfl
    · obtain ⟨rest, hcons⟩ := List.head?_eq_some_iff.mp hhash
      have hne {keyword : Bytes} (hkeyword : keyword.head? ≠ some StringTools.hash) :
          toLower (StringTools.hash :: rest) ≠ keyword := by
        rintro rfl
        exact hkeyword rfl
      rw [hcons, if_neg (hne (by decide)), if_neg fun hand => hne (by decide) hand.1]
  · rw [if_neg hskip]
    simp only [hfirst, hsecond, hthird, List.nil_append]
    split_ifs with hinclude hmatch hsupported hand hand hand
    · rfl
    · rfl
    · exact absurd ⟨hmatch, hsupported⟩ hand
    · exact absurd hand.2 hsupported
    · rfl
    · exact absurd hand.1 hmatch
    · rfl

theorem matchLine_allMatches (h : MatchLine line type value) (host : Host) :
    (lineAdds host line).allMatches = (matchPatterns value).map (matchContext type) := by
  obtain ⟨⟨directive, criterion, others, hwords, hdirective, rfl, rfl⟩, hsupported⟩ := h
  have hinclude : ¬ toLower directive = utf8 "include" := by
    rw [hdirective]
    decide
  rw [lineAdds_eq, hwords, List.tail_cons, List.tail_cons, List.headD_cons, List.headD_cons, if_neg hinclude,
    if_pos ⟨hdirective, hsupported⟩]

/-- The contexts that a line adds are those of a match line. -/
theorem mem_allMatches_iff {context : Bytes} : context ∈ (lineAdds host line).allMatches ↔
    ∃ type value, MatchLine line type value ∧ ∃ pattern ∈ matchPatterns value, matchContext type pattern = context := by
  constructor
  · intro hmem
    rw [lineAdds_eq] at hmem
    split_ifs at hmem with hinclude hmatch
    · cases hmem
    · obtain ⟨hdirective, hsupported⟩ := hmatch
      rcases hwords : words blank line with _ | ⟨directive, _ | ⟨criterion, others⟩⟩
      · rw [hwords] at hdirective
        exact absurd hdirective (by decide)
      · rw [hwords] at hsupported
        have hnil : toLower [] ∉ supportedTypes := by decide
        exact absurd hsupported hnil
      · rw [hwords] at hdirective hsupported hmem
        exact ⟨_, _, ⟨⟨directive, criterion, others, hwords, hdirective, rfl, rfl⟩, hsupported⟩, List.mem_map.mp hmem⟩
    · cases hmem
  · rintro ⟨type, value, hmatch, hpattern⟩
    rw [matchLine_allMatches hmatch]
    exact List.mem_map.mpr hpattern

theorem mem_includedFiles_iff {name : Bytes} (hne : name ≠ []) :
    file ∈ includedFiles host name ↔ TakenFor host name file := by
  rw [includedFiles, if_neg hne, TakenFor]
  rcases cutLast_cases slash name with ⟨hcut, hslash⟩ | ⟨directory, pattern, hpattern, rfl, hcut⟩
  · have hnone {directory pattern : Bytes} (h : name = directory ++ slash :: pattern) : False :=
      hslash (by rw [h]; simp)
    rw [hcut, List.mem_singleton]
    constructor
    · exact fun hfile => .inr ⟨fun _ _ h => (hnone h).elim, hfile⟩
    · rintro (⟨_, _, h, -⟩ | ⟨-, hfile⟩)
      · exact (hnone h).elim
      · exact hfile
  · have hunique {directory' pattern' : Bytes} (h : directory ++ slash :: pattern = directory' ++ slash :: pattern')
        (hpattern' : slash ∉ pattern') : directory = directory' ∧ pattern = pattern' := by
      have hcut' := cutLast_append hpattern' directory'
      rw [← h, hcut] at hcut'
      exact Prod.mk.inj (Option.some.inj hcut')
    simp only [hcut]
    split_ifs with hasterisk
    · constructor
      · exact fun hfile => .inl ⟨directory, pattern, rfl, hpattern, hasterisk, hfile⟩
      · rintro (⟨directory', pattern', h, hpattern', -, hfile⟩ | ⟨hnone, -⟩)
        · obtain ⟨rfl, rfl⟩ := hunique h hpattern'
          exact hfile
        · exact absurd hasterisk (hnone directory pattern rfl hpattern)
    · rw [List.mem_singleton]
      constructor
      · refine fun hfile => .inr ⟨fun directory' pattern' h hpattern' => ?_, hfile⟩
        rw [← (hunique h hpattern').2]
        exact hasterisk
      · rintro (⟨directory', pattern', h, hpattern', hasterisk', -⟩ | ⟨-, hfile⟩)
        · rw [← (hunique h hpattern').2] at hasterisk'
          exact absurd hasterisk' hasterisk
        · exact hfile

/-- The files that a line adds are those its first name is taken for. -/
theorem mem_configFiles_iff : file ∈ (lineAdds host line).configFiles ↔
    ∃ name, FollowedLine line name ∧ TakenFor host name file := by
  have hword {name : Bytes} (h : FollowedLine line name) : name ≠ [] := by
    obtain ⟨directive, others, hwords, -⟩ := h.columns
    exact (@mem_words _ blank line name (by rw [hwords]; simp)).1
  constructor
  · intro hmem
    rw [lineAdds_eq] at hmem
    split_ifs at hmem with hinclude hmatch
    · rcases hwords : words blank line with _ | ⟨directive, _ | ⟨name, others⟩⟩
      · rw [hwords] at hinclude
        exact absurd hinclude (by decide)
      · rw [hwords] at hmem
        exact absurd hmem (by simp [includedFiles])
      · rw [hwords] at hinclude hmem
        have hline : FollowedLine line name := ⟨directive, others, hwords, hinclude⟩
        exact ⟨name, hline, (mem_includedFiles_iff (hword hline)).mp hmem⟩
    · cases hmem
    · cases hmem
  · rintro ⟨name, hline, htaken⟩
    have hname := hword hline
    obtain ⟨directive, others, hwords, hdirective⟩ := hline.columns
    rw [lineAdds_eq, hwords, List.tail_cons, List.headD_cons, List.headD_cons, if_pos hdirective]
    exact (mem_includedFiles_iff hname).mpr htaken

end Lines

section Includes

def quote : UInt8 := 0x22

def openBracket : UInt8 := 0x5B
def questionMark : UInt8 := 0x3F

/-- Blanks part arguments, but not in double quotes; what has been read of an argument comes first. -/
def argumentsFrom : (quoted : Bool) → Option Bytes → Bytes → List Bytes
  | _, argument, [] => argument.toList
  | quoted, argument, c :: s =>
    if c = quote then argumentsFrom (! quoted) (argument.getD []) s
    else if blank c && ! quoted then argument.toList ++ argumentsFrom quoted none s
    else argumentsFrom quoted (argument.getD [] ++ [c]) s

/-- How `sshd` reads a line: a keyword and its arguments. -/
def arguments (line : Bytes) : List Bytes := argumentsFrom false none line

/-- Any number of names may follow `Include`. -/
structure IncludeLine (line name : Bytes) : Prop where
  columns : ∃ directive names, arguments line = directive :: names ∧ toLower directive = utf8 "include" ∧ name ∈ names

/-- A name that is not absolute is one in the directory of `sshd`. -/
def absolute (name : Bytes) : Bytes := if name.head? = some slash then name else utf8 "/etc/ssh/" ++ name

def HasWildcard (name : Bytes) : Prop := asterisk ∈ name ∨ questionMark ∈ name ∨ openBracket ∈ name

/-- The files a name stands for: with a wildcard those that `glob` finds for it. -/
def StandsFor (globbed : Bytes → List Bytes) (name file : Bytes) : Prop :=
  HasWildcard name ∧ file ∈ globbed (absolute name) ∨ ¬ HasWildcard name ∧ file = absolute name

/-- A file that can be read includes another one. -/
def Includes (host : Host) (globbed : Bytes → List Bytes) (file included : Bytes) : Prop :=
  ∃ line name, LineOf host file line ∧ IncludeLine line name ∧ StandsFor globbed name included

/-- A file has the first name of a line taken for another one. -/
def Follows (host : Host) (file included : Bytes) : Prop :=
  ∃ line name, LineOf host file line ∧ FollowedLine line name ∧ TakenFor host name included

/-- A pattern of a match line of a file gives a context. -/
def Writes (host : Host) (file context : Bytes) : Prop :=
  ∃ line type value, LineOf host file line ∧ MatchLine line type value ∧
    ∃ pattern ∈ matchPatterns value, matchContext type pattern = context

private theorem mem_elim_lines : line ∈ host.files[file]?.elim [] lines ↔ LineOf host file line := by
  rw [LineOf]
  cases host.files[file]? with
  | none => simp
  | some fileContent => simp

theorem mem_includes_iff {included : Bytes} : included ∈ includes host file ↔ Follows host file included := by
  simp only [includes, List.mem_flatMap, mem_elim_lines, mem_configFiles_iff, Follows]
  constructor
  · rintro ⟨line, hline, name, hfollowed, htaken⟩
    exact ⟨line, name, hline, hfollowed, htaken⟩
  · rintro ⟨line, name, hline, hfollowed, htaken⟩
    exact ⟨line, hline, name, hfollowed, htaken⟩

theorem mem_contexts_iff {context : Bytes} : context ∈ contexts host file ↔ Writes host file context := by
  simp only [contexts, List.mem_flatMap, mem_elim_lines, mem_allMatches_iff, Writes]
  constructor
  · rintro ⟨line, hline, type, value, hmatch, hpattern⟩
    exact ⟨line, type, value, hline, hmatch, hpattern⟩
  · rintro ⟨line, type, value, hline, hmatch, hpattern⟩
    exact ⟨line, hline, type, value, hmatch, hpattern⟩

private theorem gives_includes (host : Host) : Worklist.Gives (includes host) = Follows host := by
  funext file included
  exact propext mem_includes_iff

end Includes

section Collected

/-- Collecting ends, and what is collected has a context for each pattern of each match line of a file that is reached. -/
structure Collects (host : Host) (globbed : Bytes → List Bytes) : Prop where
  ends : ∃ fuel allMatches, getAllMatches host fuel = some allMatches
  complete : ∀ fuel allMatches, getAllMatches host fuel = some allMatches → ∀ file,
    ReflTransGen (Includes host globbed) mainFile file → ∀ line, LineOf host file line → ∀ type value,
      MatchLine line type value → ∀ pattern ∈ matchPatterns value, matchContext type pattern ∈ allMatches

/-- No file that is followed to leads back to itself. -/
def Acyclic (host : Host) : Prop :=
  ∀ file, ReflTransGen (Follows host) mainFile file → ¬ TransGen (Follows host) file file

/-- What is written in a file that is included is written in one that is followed to. -/
def Covered (host : Host) (globbed : Bytes → List Bytes) : Prop :=
  ∀ file context, ReflTransGen (Includes host globbed) mainFile file → Writes host file context →
    ∃ followed, ReflTransGen (Follows host) mainFile followed ∧ Writes host followed context

theorem ends_iff (host : Host) : (∃ fuel allMatches, getAllMatches host fuel = some allMatches) ↔ Acyclic host := by
  rw [Acyclic, ← gives_includes, ← Worklist.acc_iff_acyclic (finite_includes host)]
  constructor
  · rintro ⟨fuel, allMatches, hrun⟩
    rw [getAllMatches, matchLoop_eq] at hrun
    exact Worklist.acc_of_run hrun mainFile List.mem_cons_self
  · intro hacc
    obtain ⟨fuel, allMatches, hrun⟩ := Worklist.run_of_acc (List.forall_mem_singleton.mpr hacc) (contexts host) []
    exact ⟨fuel, allMatches, by rw [getAllMatches, matchLoop_eq, hrun]⟩

/-- What is collected is what the files that are followed to have written. -/
theorem mem_allMatches_of_run {fuel : Nat} {allMatches : List Bytes} (hrun : getAllMatches host fuel = some allMatches)
    (context : Bytes) :
    context ∈ allMatches ↔ ∃ file, ReflTransGen (Follows host) mainFile file ∧ Writes host file context := by
  rw [getAllMatches, matchLoop_eq] at hrun
  constructor
  · intro hcontext
    rcases Worklist.exists_found_of_run hrun hcontext with hnil | ⟨start, hstart, file, hreached, hfound⟩
    · cases hnil
    · rw [List.mem_singleton] at hstart
      subst hstart
      rw [gives_includes] at hreached
      exact ⟨file, hreached, mem_contexts_iff.mp hfound⟩
  · rintro ⟨file, hreached, hwrites⟩
    rw [← gives_includes] at hreached
    have hfound := (Worklist.run_found hrun).2 mainFile List.mem_cons_self file hreached
    exact hfound.subset (mem_contexts_iff.mpr hwrites)

/-- The contexts of a match line stand side by side, one for each pattern. -/
theorem matchLine_infix {fuel : Nat} {allMatches : List Bytes} (hrun : getAllMatches host fuel = some allMatches)
    (hreached : ReflTransGen (Follows host) mainFile file) (hline : LineOf host file line)
    (hmatch : MatchLine line type value) :
    (matchPatterns value).map (matchContext type) <:+: allMatches := by
  rw [getAllMatches, matchLoop_eq] at hrun
  rw [← gives_includes] at hreached
  refine List.IsInfix.trans ?_ ((Worklist.run_found hrun).2 mainFile List.mem_cons_self file hreached)
  obtain ⟨before, after, hsplit⟩ := List.append_of_mem (mem_elim_lines.mpr hline)
  rw [contexts, hsplit, List.flatMap_append, List.flatMap_cons, matchLine_allMatches hmatch]
  exact ⟨_, _, by rw [List.append_assoc]⟩

/-- A line with one name that is absolute, without quotes, and with a wildcard only where an asterisk is looked for and
finds what `glob` does. -/
structure PlainLine (host : Host) (globbed : Bytes → List Bytes) (line name : Bytes) : Prop where
  unquoted : quote ∉ line
  single : (words blank line).length = 2
  rooted : name.head? = some slash
  wildcard : HasWildcard name → ∃ directory pattern, name = directory ++ slash :: pattern ∧ slash ∉ pattern ∧
    asterisk ∈ pattern ∧ ∀ file ∈ globbed name, file ∈ host.filesFound directory pattern

private theorem argumentsFrom_word {text rest : Bytes} (htext : ∀ c ∈ text, blank c = false) (hquote : quote ∉ text)
    (hrest : quote ∉ rest) (hends : EndsSpan (! blank ·) rest) (before : Bytes) (hne : before ++ text ≠ []) :
    argumentsFrom false (some before) (text ++ rest) = (before ++ text) :: argumentsFrom false none rest := by
  induction text generalizing before with
  | nil =>
    rw [List.append_nil] at hne
    rw [List.nil_append, List.append_nil]
    cases rest with
    | nil => rfl
    | cons c rest =>
      have hc : blank c = true := by simpa using endsSpan_cons.mp hends
      have hcq : ¬ c = quote := fun h => hrest (h ▸ List.mem_cons_self)
      rw [argumentsFrom, if_neg hcq, if_pos (by rw [hc]; rfl), argumentsFrom, if_neg hcq, if_pos (by rw [hc]; rfl)]
      rfl
  | cons c text ih =>
    rw [List.forall_mem_cons] at htext
    rw [List.mem_cons, not_or] at hquote
    rw [List.cons_append, argumentsFrom, if_neg (Ne.symm hquote.1), if_neg (by rw [htext.1]; decide), Option.getD_some,
      ih htext.2 hquote.2 (before ++ [c]) (by simp), List.append_assoc, List.singleton_append]

/-- Without quotes the arguments are the words. -/
theorem arguments_eq_words (h : quote ∉ line) : arguments line = words blank line := by
  rw [arguments]
  induction line using words_induction blank with
  | nil =>
    rw [words_nil]
    rfl
  | separator c line hc ih =>
    rw [List.mem_cons, not_or] at h
    rw [words_cons hc, argumentsFrom, if_neg (Ne.symm h.1), if_pos (by rw [hc]; rfl), ih h.2]
    rfl
  | word text rest hne htext hends ih =>
    rw [List.mem_append, not_or] at h
    obtain ⟨c, text, rfl⟩ := List.exists_cons_of_ne_nil hne
    have hcq := h.1
    rw [List.forall_mem_cons] at htext
    rw [List.mem_cons, not_or] at hcq
    have hword := argumentsFrom_word htext.2 hcq.2 h.2 hends [c] (by simp)
    rw [words_append (List.forall_mem_cons.mpr htext) hne hends, List.cons_append, argumentsFrom,
      if_neg (Ne.symm hcq.1), if_neg (by rw [htext.1]; decide), ← ih h.2]
    exact hword

theorem PlainLine.taken {name included : Bytes} (h : PlainLine host globbed line name) (hinclude : IncludeLine line name)
    (hstands : StandsFor globbed name included) : FollowedLine line name ∧ TakenFor host name included := by
  have habsolute : absolute name = name := if_pos h.rooted
  obtain ⟨directive, names, hwords, hdirective, hname⟩ := hinclude.columns
  rw [arguments_eq_words h.unquoted] at hwords
  have hlength := h.single
  rw [hwords, List.length_cons, Nat.add_right_cancel_iff, List.length_eq_one_iff] at hlength
  obtain ⟨only, rfl⟩ := hlength
  rw [List.mem_singleton] at hname
  subst hname
  refine ⟨⟨directive, [], hwords, hdirective⟩, ?_⟩
  rw [StandsFor, habsolute] at hstands
  rcases hstands with ⟨hwildcard, hfile⟩ | ⟨hwildcard, rfl⟩
  · obtain ⟨directory, pattern, hsplit, hslash, hasterisk, hfound⟩ := h.wildcard hwildcard
    exact .inl ⟨directory, pattern, hsplit, hslash, hasterisk, hfound included hfile⟩
  · refine .inr ⟨fun directory pattern hsplit _ hasterisk => hwildcard (.inl ?_), rfl⟩
    rw [hsplit]
    exact List.mem_append_right _ (List.mem_cons_of_mem _ hasterisk)

/-- Nothing is left out where the lines that include files are plain. -/
theorem covered_of_plain (h : ∀ file, ReflTransGen (Includes host globbed) mainFile file → ∀ line name,
    LineOf host file line → IncludeLine line name → PlainLine host globbed line name) : Covered host globbed := by
  intro file context hreached hwrites
  refine ⟨file, ?_, hwrites⟩
  clear hwrites
  induction hreached with
  | refl => exact .refl
  | tail hreached hstep ih =>
    obtain ⟨line, name, hline, hinclude, hstands⟩ := hstep
    obtain ⟨hfollowed, htaken⟩ := (h _ hreached line name hline hinclude).taken hinclude hstands
    exact ih.tail ⟨line, name, hline, hfollowed, htaken⟩

/-- The contexts are collected just where the files that are followed to have no cycle and write all that is included. -/
theorem collects_iff (host : Host) (globbed : Bytes → List Bytes) :
    Collects host globbed ↔ Acyclic host ∧ Covered host globbed := by
  constructor
  · intro h
    obtain ⟨fuel, allMatches, hrun⟩ := h.ends
    refine ⟨(ends_iff host).mp h.ends, fun file context hreached hwrites => ?_⟩
    obtain ⟨line, type, value, hline, hmatch, pattern, hpattern, rfl⟩ := hwrites
    exact (mem_allMatches_of_run hrun _).mp
      (h.complete fuel allMatches hrun file hreached line hline type value hmatch pattern hpattern)
  · rintro ⟨hacyclic, hcovered⟩
    refine ⟨(ends_iff host).mpr hacyclic, ?_⟩
    intro fuel allMatches hrun file hreached line hline type value hmatch pattern hpattern
    exact (mem_allMatches_of_run hrun _).mpr
      (hcovered file _ hreached ⟨line, type, value, hline, hmatch, pattern, hpattern, rfl⟩)

/-- A configuration that names itself. -/
def selfIncluding : Host where
  files := (∅ : ByteMap Bytes).insert mainFile (utf8 "Include /etc/ssh/sshd_config\nMatch User root\n")
  filesFound _ _ := []

/-- A configuration that names two files, of which the second one can be read. -/
def twoNames : Host where
  files := ((∅ : ByteMap Bytes).insert mainFile (utf8 "Include /etc/ssh/a /etc/ssh/b\n")).insert (utf8 "/etc/ssh/b")
    (utf8 "Match User root\n")
  filesFound _ _ := []

private theorem selfIncluding_loops (fuel : Nat) : getAllMatches selfIncluding fuel = none := by
  have hread (allMatches : List Bytes) : readFile selfIncluding { configFiles := [], allMatches } mainFile =
      { configFiles := [mainFile], allMatches := allMatches ++ [utf8 "user=root"] } := by
    have hincludes : includes selfIncluding mainFile = [mainFile] := by decide +kernel
    have hcontexts : contexts selfIncluding mainFile = [utf8 "user=root"] := by decide +kernel
    rw [readFile_eq, hincludes, hcontexts]
    rfl
  have hloop (fuel : Nat) (allMatches : List Bytes) : matchLoop selfIncluding fuel [mainFile] allMatches = none := by
    induction fuel generalizing allMatches with
    | zero => rfl
    | succ fuel ih =>
      rw [matchLoop, hread]
      exact ih _
  exact hloop fuel []

private theorem twoNames_includes : Includes twoNames (fun _ => []) mainFile (utf8 "/etc/ssh/b") := by
  refine ⟨utf8 "Include /etc/ssh/a /etc/ssh/b", utf8 "/etc/ssh/b", ⟨_, rfl, by decide +kernel⟩, ?_, ?_⟩
  · exact ⟨utf8 "Include", [utf8 "/etc/ssh/a", utf8 "/etc/ssh/b"], by decide +kernel, by decide, by decide⟩
  · refine .inr ⟨?_, by decide +kernel⟩
    rw [HasWildcard]
    decide +kernel

/-- A file that includes itself is read again and again, and the second name of a line is not read. -/
theorem contexts_not_collected :
    ((∀ fuel, getAllMatches selfIncluding fuel = none) ∧ ¬ Collects selfIncluding (fun _ => [])) ∧
      getAllMatches twoNames 2 = some [] ∧ ¬ Collects twoNames (fun _ => []) := by
  have hnothing : getAllMatches twoNames 2 = some [] := by decide +kernel
  refine ⟨⟨selfIncluding_loops, fun h => ?_⟩, hnothing, fun h => ?_⟩
  · obtain ⟨fuel, allMatches, hrun⟩ := h.ends
    rw [selfIncluding_loops] at hrun
    cases hrun
  · have hmatch : MatchLine (utf8 "Match User root") (utf8 "user") (utf8 "root") :=
      ⟨⟨utf8 "Match", utf8 "User", [utf8 "root"], by decide +kernel, by decide +kernel, by decide +kernel,
        by decide +kernel⟩, by decide +kernel⟩
    have hcollected := h.complete 2 [] hnothing _ (.single twoNames_includes) (utf8 "Match User root")
      ⟨_, rfl, by decide +kernel⟩ (utf8 "user") (utf8 "root") hmatch (utf8 "root") (by decide +kernel)
    cases hcollected

end Collected

end Kompli.SshdOption
