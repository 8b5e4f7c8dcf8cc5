import Kompli.Parsers.NameserverSelection

/-! The captures that are selected are those of the matches of the expression. -/
namespace Kompli.NameserverSelection
open Foundation Foundation.Loop RegexSearch Backtracking
open Streams (newline)

section Expression

/-- `^nameserver\s+(.*)$`, where lines have starts and ends. -/
def nameserver : Backtracking UInt8 :=
  seq (lineStart newline) (seq (literal keyword) (seq (plus (char isAsciiWhitespace))
    (seq (group (star (char fun c => c ≠ newline))) (lineEnd newline))))

def pattern (bytes : Bytes) : Expression bytes.length := nameserver.expression bytes

variable {bytes : Bytes} {place cursor : Nat}

/-- Where the line ends. -/
def lineStop (bytes : Bytes) (cursor : Nat) : Nat := (findFrom newline bytes cursor).getD bytes.length

/-- The match with the capture from a place to the end of its line. -/
def matchTo (bytes : Bytes) (place cursor : Nat) : Match :=
  { position := place, length := lineStop bytes cursor - place,
    group := some (cursor, lineStop bytes cursor - cursor) }

theorem lineStop_eq (hcursor : cursor ≤ bytes.length) :
    lineStop bytes cursor = cursor + ((bytes.drop cursor).takeWhile fun c => c ≠ newline).length := by
  rw [lineStop, findFrom, length_takeWhile_ne]
  split_ifs with hmem
  · rfl
  · rw [List.idxOf_eq_length hmem, List.length_drop, Option.getD_none]
    omega

theorem lineStop_le (hcursor : cursor ≤ bytes.length) :
    cursor ≤ lineStop bytes cursor ∧ lineStop bytes cursor ≤ bytes.length := by
  have hrun := (List.takeWhile_prefix (l := bytes.drop cursor) fun c => decide (c ≠ newline)).length_le
  rw [List.length_drop] at hrun
  rw [lineStop_eq hcursor]
  omega

/-- The line ends at the end of the text or before a newline. -/
theorem lineStop_end : lineStop bytes cursor = bytes.length ∨ bytes[lineStop bytes cursor]? = some newline := by
  rw [lineStop]
  cases hend : findFrom newline bytes cursor with
  | none => exact .inl rfl
  | some place => exact .inr (findFrom_some hend).2.1

theorem cursorAt_some (h : cursorAt bytes place = some cursor) :
    keyword <+: bytes.drop place ∧ (∃ c, bytes[place + keyword.length]? = some c ∧ isAsciiWhitespace c = true) ∧
      cursor = place + keyword.length + ((bytes.drop (place + keyword.length)).takeWhile isAsciiWhitespace).length := by
  rw [cursorAt] at h
  split_ifs at h with hcond
  cases h
  exact ⟨List.prefix_iff_eq_take.mpr hcond.1.symm, (Option.any_eq_true _ _).mp hcond.2, rfl⟩

theorem cursorAt_none (h : cursorAt bytes place = none) :
    ¬ keyword <+: bytes.drop place ∨ bytes[place + keyword.length]?.any isAsciiWhitespace = false := by
  rw [cursorAt, ite_eq_right_iff] at h
  by_contra hnot
  rw [not_or, not_not, Bool.not_eq_false] at hnot
  cases h ⟨(List.prefix_iff_eq_take.mp hnot.1).symm, hnot.2⟩

theorem cursorAt_le (h : cursorAt bytes place = some cursor) :
    place + keyword.length < cursor ∧ cursor ≤ bytes.length := by
  obtain ⟨-, ⟨c, hc, hspace⟩, rfl⟩ := cursorAt_some h
  obtain ⟨hlt, hget⟩ := List.getElem?_eq_some_iff.mp hc
  have hrun := (List.takeWhile_prefix (l := bytes.drop (place + keyword.length)) isAsciiWhitespace).length_le
  rw [List.length_drop] at hrun
  have hfirst : 0 < ((bytes.drop (place + keyword.length)).takeWhile isAsciiWhitespace).length := by
    rw [List.drop_eq_getElem_cons hlt, hget, List.takeWhile_cons_of_pos hspace]
    exact Nat.succ_pos _
  omega

/-- The first way to match at a line start with the keyword and white space. -/
theorem first_nameserver (hstart : LineStart newline bytes place) (h : cursorAt bytes place = some cursor)
    (unseen : Option Nat) :
    First bytes unseen nameserver { place }
      { place := lineStop bytes cursor, group := some (cursor, lineStop bytes cursor - cursor) } := by
  obtain ⟨hkeyword, ⟨c, hc, hspace⟩, hcursor⟩ := cursorAt_some h
  have hle := (cursorAt_le h).2
  have hline : First bytes unseen (lineStart newline) { place } { place } := by
    rw [First, threads, if_pos (.inr hstart)]
    rfl
  have hword : First bytes unseen (literal keyword) { place } { place := place + keyword.length } := by
    rw [First, threads_literal, if_pos hkeyword]
    rfl
  have hspaces : First bytes unseen (plus (char isAsciiWhitespace)) { place := place + keyword.length }
      { place := cursor } := by
    have hone : First bytes unseen (char isAsciiWhitespace) { place := place + keyword.length }
        { place := place + keyword.length + 1 } := by
      rw [First, threads, hc, Option.any_some, if_pos hspace]
      rfl
    refine hone.seq ?_
    have hmore := first_star_char bytes unseen isAsciiWhitespace
      { place := place + keyword.length + 1 }
    obtain ⟨hlt, hget⟩ := List.getElem?_eq_some_iff.mp hc
    rw [List.drop_eq_getElem_cons hlt, hget, List.takeWhile_cons_of_pos hspace, List.length_cons] at hcursor
    have hplace : cursor = place + keyword.length + 1 +
        ((bytes.drop (place + keyword.length + 1)).takeWhile isAsciiWhitespace).length := by omega
    exact hplace ▸ hmore
  have hcapture : First bytes unseen (group (star (char fun c => c ≠ newline))) { place := cursor }
      { place := lineStop bytes cursor, group := some (cursor, lineStop bytes cursor - cursor) } := by
    have hrest := first_star_char bytes unseen (fun c => decide (c ≠ newline)) { place := cursor }
    rw [← lineStop_eq hle] at hrest
    exact hrest.group
  have hend : First bytes unseen (lineEnd newline)
      { place := lineStop bytes cursor, group := some (cursor, lineStop bytes cursor - cursor) }
      { place := lineStop bytes cursor, group := some (cursor, lineStop bytes cursor - cursor) } := by
    rw [First, threads, if_pos lineStop_end]
    rfl
  exact hline.seq (hword.seq (hspaces.seq (hcapture.seq hend)))

theorem fails_nameserver (hstart : LineStart newline bytes place) (h : cursorAt bytes place = none)
    (unseen : Option Nat) : Fails bytes unseen nameserver { place } := by
  have hline : threads bytes unseen (lineStart newline) { place } = [{ place }] := by
    rw [threads, if_pos (.inr hstart)]
  refine Fails.seq_of_single hline ?_
  by_cases hkeyword : keyword <+: bytes.drop place
  · have hword : threads bytes unseen (literal keyword) { place } = [{ place := place + keyword.length }] := by
      rw [threads_literal, if_pos hkeyword]
    have hspace := (cursorAt_none h).resolve_left (not_not.mpr hkeyword)
    refine Fails.seq_of_single hword (Fails.seq (Fails.seq ?_))
    rw [Fails, threads, hspace]
    rfl
  · refine Fails.seq ?_
    rw [Fails, threads_literal, if_neg hkeyword]

/-- What the expression finds at a place: the first way to match is the one that the scanner takes. -/
theorem occursAt_pattern (place : Nat) : occursAt (pattern bytes) place =
    if LineStart newline bytes place ∧ place ≤ bytes.length then (cursorAt bytes place).map (matchTo bytes place)
    else none := by
  rw [pattern, occursAt_expression]
  by_cases hplace : place ≤ bytes.length
  · by_cases hstart : LineStart newline bytes place
    · have hboth : LineStart newline bytes place ∧ place ≤ bytes.length := ⟨hstart, hplace⟩
      rw [if_pos hplace, if_pos hboth]
      cases hcursor : cursorAt bytes place with
      | none => rw [fails_nameserver hstart hcursor]; rfl
      | some cursor => rw [first_nameserver hstart hcursor]; rfl
    · have hzero : place ≠ 0 := fun hzero => hstart (.inl hzero)
      have hline : Fails bytes none (lineStart newline) { place } := by
        rw [Fails, threads, if_neg (by simpa using hstart)]
      rw [if_pos hplace, if_neg hzero, if_neg fun h => hstart h.1, nameserver, hline.seq]
      rfl
  · rw [if_neg hplace, if_neg fun h => hplace h.2]

/-- Nothing is found inside a line. -/
theorem occursAt_inside (h : ¬ LineStart newline bytes place) : occursAt (pattern bytes) place = none := by
  rw [occursAt_pattern, if_neg fun hboth => h hboth.1]

/-- Up to the end of a line nothing is found after its start. -/
theorem occursAt_line {start stop : Nat} (h : findFrom newline bytes start = some stop) (hlt : start < place)
    (hle : place ≤ stop) : occursAt (pattern bytes) place = none :=
  occursAt_inside ((LineStart.of_findFrom h).2.2 place hlt hle)

theorem occursAt_last_line {start : Nat} (h : findFrom newline bytes start = none) (hlt : start < place) :
    occursAt (pattern bytes) place = none := by
  refine occursAt_inside fun hstart => ?_
  rcases hstart with rfl | hstart
  · omega
  · exact findFrom_none h (place - 1) (by omega) hstart

theorem not_getElem?_takeWhile {p : UInt8 → Bool} {c : UInt8} (text : Bytes)
    (h : text[(text.takeWhile p).length]? = some c) : ¬ p c = true := by
  induction text with
  | nil => cases h
  | cons d text ih =>
    by_cases hp : p d = true
    · rw [List.takeWhile_cons_of_pos hp, List.length_cons, List.getElem?_cons_succ] at h
      exact ih h
    · rw [List.takeWhile_cons_of_neg hp] at h
      cases h
      exact hp

/-- Nothing is found where a capture ends, as that is inside a line or at the end of the text. -/
theorem occursAt_lineStop (h : cursorAt bytes place = some cursor) :
    occursAt (pattern bytes) (lineStop bytes cursor) = none := by
  obtain ⟨-, -, hcursor⟩ := cursorAt_some h
  rw [lineStop]
  cases hend : findFrom newline bytes cursor with
  | none =>
    have hnone : cursorAt bytes bytes.length = none := by
      rw [cursorAt, List.drop_length]
      exact if_neg fun h => absurd h.1 (by decide)
    rw [Option.getD_none, occursAt_pattern, hnone]
    exact ite_self _
  | some stop =>
    obtain ⟨hle, hstop, hbefore⟩ := findFrom_some hend
    have hne : cursor ≠ stop := by
      rintro rfl
      rw [hcursor, ← List.getElem?_drop] at hstop
      exact not_getElem?_takeWhile _ hstop (by decide)
    refine occursAt_inside fun hstart => ?_
    rcases hstart with hzero | hstart
    · rw [Option.getD_some] at hzero
      omega
    · rw [Option.getD_some] at hstart
      exact hbefore (stop - 1) (by omega) (by omega) hstart

theorem isFirst_matchTo (hstart : LineStart newline bytes place) (hle : place ≤ bytes.length)
    (h : cursorAt bytes place = some cursor) :
    Segment (pattern bytes) place [matchTo bytes place cursor] (lineStop bytes cursor) := by
  have hfound : occursAt (pattern bytes) place = some (matchTo bytes place cursor) := by
    rw [occursAt_pattern, if_pos ⟨hstart, hle⟩, h]
    rfl
  have hcursor := cursorAt_le h
  have hstop := lineStop_le hcursor.2
  have hlength : (matchTo bytes place cursor).position + (matchTo bytes place cursor).length = lineStop bytes cursor := by
    dsimp only [matchTo]
    omega
  have hsegment : Segment (pattern bytes) place [matchTo bytes place cursor]
      ((matchTo bytes place cursor).position + (matchTo bytes place cursor).length) := by
    refine .nonempty ⟨le_rfl, hfound, fun before hle hlt => absurd hlt (Nat.not_lt.mpr hle)⟩ ?_
    dsimp only [matchTo]
    omega
  exact hlength ▸ hsegment

/-- After a line there is more to find only in the next ones. -/
theorem successive_of_next_line {start stop : Nat} {rest : List Match} (hfirst : occursAt (pattern bytes) start = none)
    (h : findFrom newline bytes start = some stop) (hrest : Successive (pattern bytes) (stop + 1) rest) :
    Successive (pattern bytes) start rest := by
  have hle := (findFrom_some h).1
  refine hrest.extend (fun place hstart hlt => ?_) (by omega)
  rcases Nat.eq_or_lt_of_le hstart with rfl | hlt'
  · exact hfirst
  · exact occursAt_line h hlt' (by omega)

end Expression

section Run

def capture (found : Match) : Capture :=
  { anchor := found.position, offset := (found.group.getD (0, 0)).1, length := (found.group.getD (0, 0)).2 }

def total (captures : List Capture) : Nat := (captures.map Capture.length).sum

/-- There are more captures than the limits allow, or longer ones, or more of them together. -/
def Exceeds (limits : Limits) (captures : List Capture) : Prop :=
  limits.occurrences.toNat < captures.length ∨ maxSize < captures.length ∨
    (∃ found ∈ captures, limits.captureBytes.toNat < found.length) ∨ limits.capturedBytes.toNat < total captures

def IsLimitError (source : Bytes) (error : Error) : Prop :=
  error = occurrenceLimit source ∨ error = notRepresentable source ∨ error = captureLimit source

/-- A match of the expression, with the capture that it has. -/
def IsMatch (bytes : Bytes) (found : Match) : Prop :=
  ∃ cursor, cursorAt bytes found.position = some cursor ∧ found = matchTo bytes found.position cursor

variable {bytes source : Bytes} {limits : Limits} {state next : Selection} {result : Except Error Document}

variable (bytes limits) in
/-- What has been selected before an anchor. -/
structure Selects (state : Selection) : Prop where
  anchor : LineStart newline bytes state.anchor ∧ state.anchor ≤ bytes.length
  found : ∃ found : List Match, state.captures = found.map capture ∧ (∀ one ∈ found, IsMatch bytes one) ∧
    ∀ rest, Successive (pattern bytes) state.anchor rest → Successive (pattern bytes) 0 (found ++ rest)
  capturedBytes : state.capturedBytes.toNat = total state.captures
  within : ¬ Exceeds limits state.captures

variable (bytes source limits) in
/-- All matches are selected and none is beyond the limits, or it is a limit that the matches exceed. -/
def Selected (result : Except Error Document) : Prop :=
  ∃ all, Successive (pattern bytes) 0 all ∧
    ((result = .ok (document bytes source (all.map capture)) ∧ ¬ Exceeds limits (all.map capture) ∧
        ∀ found ∈ all, IsMatch bytes found) ∨
      ∃ error, result = .error error ∧ IsLimitError source error ∧
        ∃ captures, captures <+: all.map capture ∧ Exceeds limits captures)

theorem total_append (captures : List Capture) (found : Capture) :
    total (captures ++ [found]) = total captures + found.length := by
  simp [total]

theorem not_exceeds_append {captures : List Capture} {found : Capture} (h : ¬ Exceeds limits captures)
    (hoccurrences : ¬ limits.occurrences.toNat ≤ captures.length) (hsize : ¬ maxSize ≤ captures.length)
    (hbytes : ¬ limits.captureBytes.toNat < found.length)
    (htotal : ¬ limits.capturedBytes.toNat < total captures + found.length) :
    ¬ Exceeds limits (captures ++ [found]) := by
  rw [Exceeds, total_append, List.length_append, List.length_singleton]
  rintro (hlength | hlength | ⟨other, hother, hlong⟩ | hlong)
  · omega
  · omega
  · rcases List.mem_append.mp hother with hother | hother
    · exact h (.inr (.inr (.inl ⟨other, hother, hlong⟩)))
    · rw [List.mem_singleton.mp hother] at hlong
      exact hbytes hlong
  · exact htotal hlong

/-- What remains of the limit is what the captures leave of it: the subtraction does not wrap. -/
theorem Selects.remaining (h : Selects bytes limits state) :
    (limits.capturedBytes - state.capturedBytes).toNat = limits.capturedBytes.toNat - total state.captures ∧
      total state.captures ≤ limits.capturedBytes.toNat := by
  have htotal : total state.captures ≤ limits.capturedBytes.toNat := by
    have hwithin := h.within
    simp only [Exceeds, not_or] at hwithin
    omega
  refine ⟨?_, htotal⟩
  rw [UInt64.toNat_sub_of_le _ _ (UInt64.le_iff_toNat_le.mpr (h.capturedBytes ▸ htotal)), h.capturedBytes]

/-- The matches with the one that is found at the anchor. -/
theorem Selects.all_with {cursor : Nat} (h : Selects bytes limits state) (hcursor : cursorAt bytes state.anchor = some cursor) :
    ∃ found : List Match, state.captures ++ [capture (matchTo bytes state.anchor cursor)] = found.map capture ∧
      (∀ one ∈ found, IsMatch bytes one) ∧
      ∀ rest, Successive (pattern bytes) (lineStop bytes cursor) rest → Successive (pattern bytes) 0 (found ++ rest) := by
  obtain ⟨found, hcaptures, hmatches, hall⟩ := h.found
  refine ⟨found ++ [matchTo bytes state.anchor cursor], ?_, ?_, fun rest hrest => ?_⟩
  · rw [List.map_append, hcaptures]
    rfl
  · rw [List.forall_mem_append, List.forall_mem_singleton]
    exact ⟨hmatches, cursor, hcursor, rfl⟩
  · rw [List.append_assoc]
    exact hall _ (.segment (isFirst_matchTo h.anchor.1 h.anchor.2 hcursor) hrest)

variable (source) in
/-- A turn at a match. -/
theorem Selects.turn_capture {cursor : Nat} (h : Selects bytes limits state)
    (hcursor : cursorAt bytes state.anchor = some cursor) :
    (∃ error, selectionTurn bytes source limits state = .leave (.error error) ∧ IsLimitError source error ∧
      Exceeds limits (state.captures ++ [capture (matchTo bytes state.anchor cursor)])) ∨
    (¬ Exceeds limits (state.captures ++ [capture (matchTo bytes state.anchor cursor)]) ∧
      ((findFrom newline bytes cursor = none ∧ selectionTurn bytes source limits state =
          .leave (.ok (document bytes source (state.captures ++ [capture (matchTo bytes state.anchor cursor)])))) ∨
        ∃ place capturedBytes, findFrom newline bytes cursor = some place ∧
          capturedBytes.toNat = total (state.captures ++ [capture (matchTo bytes state.anchor cursor)]) ∧
          selectionTurn bytes source limits state = .again
            { anchor := place + 1, captures := state.captures ++ [capture (matchTo bytes state.anchor cursor)],
              capturedBytes })) := by
  obtain ⟨hremaining, htotal⟩ := h.remaining
  have hend : ¬ bytes.length < state.anchor := Nat.not_lt.mpr h.anchor.2
  have hlength : (capture (matchTo bytes state.anchor cursor)).length = lineStop bytes cursor - cursor := rfl
  rw [selectionTurn, if_neg hend, hcursor]
  dsimp only
  by_cases hoccurrences : limits.occurrences.toNat ≤ state.captures.length
  · refine .inl ⟨_, if_pos hoccurrences, .inl rfl, .inl ?_⟩
    rw [List.length_append, List.length_singleton]
    omega
  rw [if_neg hoccurrences]
  by_cases hsize : maxSize ≤ state.captures.length
  · refine .inl ⟨_, if_pos hsize, .inr (.inl rfl), .inr (.inl ?_)⟩
    rw [List.length_append, List.length_singleton]
    omega
  rw [if_neg hsize]
  by_cases hlong : limits.captureBytes.toNat < lineStop bytes cursor - cursor ∨
      (limits.capturedBytes - state.capturedBytes).toNat < lineStop bytes cursor - cursor
  · refine .inl ⟨_, if_pos hlong, .inr (.inr rfl), .inr (.inr ?_)⟩
    rcases hlong with hlong | hlong
    · exact .inl ⟨_, List.mem_append_right _ (List.mem_singleton_self _), hlong⟩
    · rw [total_append, hlength]
      omega
  refine .inr ⟨not_exceeds_append h.within hoccurrences hsize (by omega) (by omega), ?_⟩
  have hcapture : capture (matchTo bytes state.anchor cursor) =
      { anchor := state.anchor, offset := cursor, length := (findFrom newline bytes cursor).getD bytes.length - cursor } :=
    rfl
  rw [lineStop, not_or] at hlong
  rw [if_neg (not_or.mpr hlong), hcapture, total_append]
  cases hstop : findFrom newline bytes cursor with
  | none => exact .inl ⟨rfl, rfl⟩
  | some place =>
    rw [hstop] at hlong
    refine .inr ⟨place, state.capturedBytes + UInt64.ofNat (place - cursor), rfl, ?_, rfl⟩
    have hlimit := limits.capturedBytes.toNat_lt
    rw [Option.getD_some] at hlong ⊢
    rw [UInt64.toNat_add, UInt64.toNat_ofNat', h.capturedBytes, Nat.mod_eq_of_lt (by omega), Nat.mod_eq_of_lt (by omega)]

theorem Selects.turn (h : Selects bytes limits state) (hturn : selectionTurn bytes source limits state = .again next) :
    Selects bytes limits next ∧ bytes.length + 1 - next.anchor < bytes.length + 1 - state.anchor := by
  cases hcursor : cursorAt bytes state.anchor with
  | some cursor =>
    rcases h.turn_capture source hcursor with ⟨_, hleave, -⟩ |
      ⟨hwithin, ⟨-, hleave⟩ | ⟨place, capturedBytes, hstop, htotal, hagain⟩⟩
    · cases hleave.symm.trans hturn
    · cases hleave.symm.trans hturn
    · cases hagain.symm.trans hturn
      obtain ⟨hstart, hlt, -⟩ := LineStart.of_findFrom hstop
      obtain ⟨found, hfound, hmatches, hall⟩ := h.all_with hcursor
      have hle := (findFrom_some hstop).1
      have hcursor_le := cursorAt_le hcursor
      have hline : lineStop bytes cursor = place := by rw [lineStop, hstop, Option.getD_some]
      refine ⟨⟨⟨hstart, hlt⟩, ⟨found, hfound, hmatches, fun rest hrest => hall rest ?_⟩, htotal, hwithin⟩, ?_⟩
      · have hrest' : Successive (pattern bytes) (place + 1) rest := hrest
        refine hrest'.extend (fun other hother hless => ?_) (by omega)
        obtain rfl : other = lineStop bytes cursor := by omega
        exact occursAt_lineStop hcursor
      · dsimp only
        omega
  | none =>
    have hnone : occursAt (pattern bytes) state.anchor = none := by
      rw [occursAt_pattern, hcursor]
      exact ite_self _
    rw [selectionTurn, if_neg (Nat.not_lt.mpr h.anchor.2), hcursor] at hturn
    dsimp only at hturn
    cases hstop : findFrom newline bytes state.anchor with
    | none =>
      rw [hstop] at hturn
      cases hturn
    | some place =>
      rw [hstop] at hturn
      cases hturn
      obtain ⟨hstart, hlt, -⟩ := LineStart.of_findFrom hstop
      obtain ⟨found, hfound, hmatches, hall⟩ := h.found
      have hle := (findFrom_some hstop).1
      refine ⟨⟨⟨hstart, hlt⟩, ⟨found, hfound, hmatches, fun rest hrest => hall rest ?_⟩, h.capturedBytes, h.within⟩, ?_⟩
      · exact successive_of_next_line hnone hstop hrest
      · dsimp only
        omega

theorem Selects.last (h : Selects bytes limits state)
    (hturn : selectionTurn bytes source limits state = .leave result) : Selected bytes source limits result := by
  cases hcursor : cursorAt bytes state.anchor with
  | some cursor =>
    obtain ⟨found, hfound, hmatches, hall⟩ := h.all_with hcursor
    rcases h.turn_capture source hcursor with ⟨error, hleave, hlimit, hexceeds⟩ |
      ⟨hwithin, ⟨hstop, hleave⟩ | ⟨_, _, _, _, hagain⟩⟩
    · cases hleave.symm.trans hturn
      obtain ⟨rest, hrest⟩ := exists_successive (pattern bytes) (lineStop bytes cursor)
      refine ⟨_, hall rest hrest, .inr ⟨error, rfl, hlimit, _, ?_, hexceeds⟩⟩
      rw [List.map_append, ← hfound]
      exact List.prefix_append _ _
    · cases hleave.symm.trans hturn
      have hline : lineStop bytes cursor = bytes.length := by rw [lineStop, hstop, Option.getD_none]
      have hdone : Successive (pattern bytes) (lineStop bytes cursor) [] := by
        refine .done fun place hle => ?_
        rcases Nat.eq_or_lt_of_le hle with rfl | hlt
        · exact occursAt_lineStop hcursor
        · exact occursAt_beyond (hline ▸ hlt)
      have hfinal := hall [] hdone
      rw [List.append_nil] at hfinal
      exact ⟨found, hfinal, .inl ⟨by rw [hfound], hfound ▸ hwithin, hmatches⟩⟩
    · cases hagain.symm.trans hturn
  | none =>
    have hnone : occursAt (pattern bytes) state.anchor = none := by
      rw [occursAt_pattern, hcursor]
      exact ite_self _
    rw [selectionTurn, if_neg (Nat.not_lt.mpr h.anchor.2), hcursor] at hturn
    dsimp only at hturn
    cases hstop : findFrom newline bytes state.anchor with
    | none =>
      rw [hstop] at hturn
      cases hturn
      obtain ⟨found, hfound, hmatches, hall⟩ := h.found
      have hdone : Successive (pattern bytes) state.anchor [] := by
        refine .done fun place hle => ?_
        rcases Nat.eq_or_lt_of_le hle with rfl | hlt
        · exact hnone
        · exact occursAt_last_line hstop hlt
      have hfinal := hall [] hdone
      rw [List.append_nil] at hfinal
      exact ⟨found, hfinal, .inl ⟨by rw [hfound], hfound ▸ h.within, hmatches⟩⟩
    | some place =>
      rw [hstop] at hturn
      cases hturn

/-- The loop never comes to a state in which more has been captured than the limit, so its subtraction does not wrap. -/
theorem Selects.comes (h : Selects bytes limits state)
    (hcomes : Comes (selectionTurn bytes source limits) state next) : Selects bytes limits next := by
  induction hcomes with
  | refl => exact h
  | tail _ hturn ih => exact (ih.turn hturn).1

theorem selects_start : Selects bytes limits {} where
  anchor := ⟨.inl rfl, Nat.zero_le _⟩
  found := ⟨[], rfl, by simp, fun rest hrest => hrest⟩
  capturedBytes := rfl
  within := by simp [Exceeds, total]

theorem exceeds_of_initial {captures all : List Capture} (hfirst : captures <+: all) (h : Exceeds limits captures) :
    Exceeds limits all := by
  obtain ⟨rest, rfl⟩ := hfirst
  rcases h with hlength | hlength | ⟨found, hfound, hlong⟩ | htotal
  · exact .inl (hlength.trans_le (List.length_append ▸ Nat.le_add_right _ _))
  · exact .inr (.inl (hlength.trans_le (List.length_append ▸ Nat.le_add_right _ _)))
  · exact .inr (.inr (.inl ⟨found, List.mem_append_left _ hfound, hlong⟩))
  · refine .inr (.inr (.inr (htotal.trans_le ?_)))
    rw [total, total, List.map_append, List.sum_append]
    exact Nat.le_add_right _ _

/-- The captures are inside the text, have no newline, and come one after the other. -/
structure Sound (bytes : Bytes) (captures : List Capture) : Prop where
  inside : ∀ found ∈ captures, found.offset + found.length ≤ bytes.length
  one_line : ∀ found ∈ captures, newline ∉ (bytes.drop found.offset).take found.length
  ordered : captures.Pairwise fun found later => found.offset + found.length ≤ later.offset

/-- Where a capture is. -/
theorem IsMatch.bounds {found : Match} (h : IsMatch bytes found) :
    found.position < (capture found).offset ∧
      (capture found).offset + (capture found).length = found.position + found.length ∧
      found.position + found.length ≤ bytes.length := by
  obtain ⟨cursor, hcursor, heq⟩ := h
  have hcursor_le := cursorAt_le hcursor
  have hstop := lineStop_le hcursor_le.2
  have hoffset : (capture found).offset = cursor := by rw [heq]; rfl
  have hlength : (capture found).length = lineStop bytes cursor - cursor := by rw [heq]; rfl
  have hfound : found.length = lineStop bytes cursor - found.position := by rw [heq]; rfl
  omega

theorem IsMatch.one_line {found : Match} (h : IsMatch bytes found) :
    newline ∉ (bytes.drop (capture found).offset).take (capture found).length := by
  obtain ⟨cursor, hcursor, heq⟩ := h
  have hoffset : (capture found).offset = cursor := by rw [heq]; rfl
  have hlength : (capture found).length = ((bytes.drop cursor).takeWhile fun c => c ≠ newline).length := by
    rw [heq]
    change lineStop bytes cursor - cursor = _
    rw [lineStop_eq (cursorAt_le hcursor).2, Nat.add_sub_cancel_left]
  rw [hoffset, hlength, ← List.prefix_iff_eq_take.mp (List.takeWhile_prefix _)]
  intro hmem
  simpa using List.mem_takeWhile_imp hmem

theorem sound_of_matches {all : List Match} (hall : Successive (pattern bytes) 0 all)
    (h : ∀ found ∈ all, IsMatch bytes found) : Sound bytes (all.map capture) where
  inside := by
    rw [List.forall_mem_map]
    intro found hfound
    have hbounds := (h found hfound).bounds
    omega
  one_line := by
    rw [List.forall_mem_map]
    exact fun found hfound => (h found hfound).one_line
  ordered := by
    rw [List.pairwise_map]
    refine hall.sorted.2.imp_of_mem fun {found later} hfound hlater hle => ?_
    have hbounds := (h found hfound).bounds
    have hlater_bounds := (h later hlater).bounds
    omega

/-- The selection of all lines is left, with what is selected. -/
theorem exists_selected (bytes source : Bytes) {limits : Limits} (hoccurrences : limits.occurrences ≠ 0)
    (hcaptureBytes : limits.captureBytes ≠ 0) (hcapturedBytes : limits.capturedBytes ≠ 0) :
    ∃ result, findNameserverCaptures bytes source limits (bytes.length + 2) = some result ∧
      Selected bytes source limits result := by
  rw [findNameserverCaptures, if_neg (by simp [hoccurrences, hcaptureBytes, hcapturedBytes])]
  exact run_total (Selects bytes limits) (Selected bytes source limits) (fun state => bytes.length + 1 - state.anchor)
    (fun _ _ h hturn => h.turn hturn) (fun _ _ h hturn => h.last hturn) selects_start (Nat.lt_succ_self _)

theorem findNameserverCaptures_isSome (bytes source : Bytes) (limits : Limits) :
    (findNameserverCaptures bytes source limits (bytes.length + 2)).isSome := by
  by_cases h : limits.occurrences = 0 ∨ limits.captureBytes = 0 ∨ limits.capturedBytes = 0
  · rw [findNameserverCaptures, if_pos h]
    rfl
  · simp only [not_or] at h
    obtain ⟨result, hrun, -⟩ := exists_selected bytes source h.1 h.2.1 h.2.2
    rw [hrun]
    rfl

end Run

section Selection

/-- Within positive limits, the selection ends and is all the matches of the expression, one after the other; it fails
with the error of a limit exactly where some of the matches, from the first on, exceed one. -/
theorem findNameserverCaptures_spec (bytes source : Bytes) {limits : Limits} (hoccurrences : limits.occurrences ≠ 0)
    (hcaptureBytes : limits.captureBytes ≠ 0) (hcapturedBytes : limits.capturedBytes ≠ 0) :
    ∃ all result, Successive (pattern bytes) 0 all ∧
      findNameserverCaptures bytes source limits (bytes.length + 2) = some result ∧
      (∀ selected, result = .ok selected → selected = document bytes source (all.map capture) ∧
        Sound bytes selected.captures ∧ total selected.captures ≤ limits.capturedBytes.toNat) ∧
      (∀ error, result = .error error → IsLimitError source error) ∧
      ((∃ error, result = .error error) ↔ ∃ captures, captures <+: all.map capture ∧ Exceeds limits captures) ∧
      ∀ state, Comes (selectionTurn bytes source limits) {} state → state.capturedBytes ≤ limits.capturedBytes := by
  obtain ⟨result, hstart, all, hall, hselected⟩ := exists_selected bytes source hoccurrences hcaptureBytes hcapturedBytes
  have hwrap : ∀ state, Comes (selectionTurn bytes source limits) {} state →
      state.capturedBytes ≤ limits.capturedBytes := by
    intro state hcomes
    have hstate := selects_start.comes hcomes
    rw [UInt64.le_iff_toNat_le, hstate.capturedBytes]
    exact hstate.remaining.2
  refine ⟨all, result, hall, hstart, ?_, ?_, ?_, hwrap⟩
  · rintro selected rfl
    rcases hselected with ⟨hok, hwithin, hmatches⟩ | ⟨_, herror, -⟩
    · cases hok
      refine ⟨rfl, sound_of_matches hall hmatches, ?_⟩
      simp only [Exceeds, not_or] at hwithin
      exact Nat.not_lt.mp hwithin.2.2.2
    · cases herror
  · rintro error rfl
    rcases hselected with ⟨hok, -⟩ | ⟨_, herror, hlimit, -⟩
    · cases hok
    · cases herror
      exact hlimit
  · rcases hselected with ⟨rfl, hwithin, -⟩ | ⟨error, rfl, -, hexceeds⟩
    · constructor
      · rintro ⟨error, herror⟩
        cases herror
      · rintro ⟨captures, hfirst, hexceeds⟩
        exact absurd (exceeds_of_initial hfirst hexceeds) hwithin
    · exact ⟨fun _ => hexceeds, fun _ => ⟨error, rfl⟩⟩

/-- White space may go on in the next line, and what follows it is the capture. -/
theorem findNameserverCaptures_two_lines :
    ∃ all result, Successive (pattern (utf8 "nameserver\n one\n")) 0 all ∧
      findNameserverCaptures (utf8 "nameserver\n one\n") (utf8 "f") {} ((utf8 "nameserver\n one\n").length + 2) =
        some result ∧
      (∀ selected, result = .ok selected →
        selected = document (utf8 "nameserver\n one\n") (utf8 "f") (all.map capture) ∧
          Sound (utf8 "nameserver\n one\n") selected.captures ∧ total selected.captures ≤ 1048576) ∧
      (∀ error, result = .error error → IsLimitError (utf8 "f") error) ∧
      ((∃ error, result = .error error) ↔ ∃ captures, captures <+: all.map capture ∧ Exceeds {} captures) ∧
      ∀ state, Comes (selectionTurn (utf8 "nameserver\n one\n") (utf8 "f") {}) {} state → state.capturedBytes ≤ 1048576 :=
  findNameserverCaptures_spec _ _ (by decide) (by decide) (by decide)

example : findNameserverCaptures (utf8 "nameserver\n one\n") (utf8 "f") {} 18 =
    some (.ok (document (utf8 "nameserver\n one\n") (utf8 "f") [{ anchor := 0, offset := 12, length := 3 }])) := by
  rfl

end Selection

end Kompli.NameserverSelection
