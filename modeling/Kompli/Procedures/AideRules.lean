import Kompli.Foundation.Lines
import Kompli.Procedures.AideAttributes

/-! The rules that calls for several paths leave in one AIDE configuration. -/
namespace Kompli.AideAttributes
open Parson Ascii Foundation Streams

def hash : UInt8 := 0x23

def marker (path : Bytes) : Bytes := utf8 "# kompli:AideAttributes:" ++ hexEncode path

def rule (path attributes : Bytes) : Bytes := utf8 "=" ++ encodeAidePath path ++ utf8 "$ " ++ attributes

/-- The marker and the rule of a path, a line each. -/
def pair (entry : Bytes × Bytes) : Bytes := marker entry.1 ++ newline :: (rule entry.1 entry.2 ++ [newline])

/-- The last call for a path comes first in the list. -/
def lastAttributes (calls : List (Bytes × Bytes)) (path : Bytes) : Option Bytes := calls.reverse.lookup path

/-- A call that the remediation makes. -/
structure IsCall (call : Bytes × Bytes) : Prop where
  path : ¬ ∃ c ∈ call.1, c ∈ utf8 "\r\n"
  attributes : ∃ params items, params.attributes = call.2 ∧ parseAttributes params = .ok items

def step (contents : Bytes) (call : Bytes × Bytes) : Bytes := setManagedRule contents call.1 call.2

def run (original : Bytes) (calls : List (Bytes × Bytes)) : Bytes := calls.foldl step original

/-- One pair for each path that was set, with the attributes of its last call, before all of the original text; a call
that is repeated changes nothing. -/
structure Managed (original : Bytes) (calls : List (Bytes × Bytes)) : Prop where
  pairs : ∃ entries : List (Bytes × Bytes), (entries.map Prod.fst).Nodup ∧
    (∀ path attributes, (path, attributes) ∈ entries ↔ lastAttributes calls path = some attributes) ∧
    run original calls = entries.flatMap pair ++ original
  repeated : ∀ last ∈ calls.getLast?, run original (calls ++ [last]) = run original calls

section Bytes

private theorem bytes_of_notMem {bytes : Bytes} (h : hash ∉ bytes ∧ newline ∉ bytes) :
    ∀ d ∈ bytes, d ≠ hash ∧ d ≠ newline :=
  fun _ hd => ⟨fun heq => h.1 (heq ▸ hd), fun heq => h.2 (heq ▸ hd)⟩

private theorem hexByte_bytes (c : UInt8) : ∀ d ∈ hexByte lowerDigits c, d ≠ hash ∧ d ≠ newline :=
  bytes_of_notMem <|
    forall_byte (P := fun c => hash ∉ hexByte lowerDigits c ∧ newline ∉ hexByte lowerDigits c) (by decide +kernel) c

private theorem hexEncode_bytes {value : Bytes} {d : UInt8} (h : d ∈ hexEncode value) : d ≠ hash ∧ d ≠ newline := by
  obtain ⟨c, -, hd⟩ := List.mem_flatMap.mp h
  exact hexByte_bytes c d hd

private theorem encodeAidePath_bytes {path : Bytes} {d : UInt8} (h : d ∈ encodeAidePath path) :
    d ≠ hash ∧ d ≠ newline := by
  obtain ⟨c, -, hd⟩ := List.mem_flatMap.mp h
  have hall := forall_byte (P := fun c =>
      hash ∉ (if isAlnum c || c ∈ utf8 "/_-" then [c] else utf8 "%" ++ hexByte upperDigits c) ∧
        newline ∉ (if isAlnum c || c ∈ utf8 "/_-" then [c] else utf8 "%" ++ hexByte upperDigits c))
    (by decide +kernel) c
  exact bytes_of_notMem hall d hd

/-- The byte that two digits stand for. -/
private def unhex (high low : UInt8) : UInt8 := UInt8.ofNat (lowerDigits.idxOf high * 16 + lowerDigits.idxOf low)

private theorem unhex_hexByte (c : UInt8) : ∃ high low, hexByte lowerDigits c = [high, low] ∧ unhex high low = c :=
  ⟨_, _, rfl, forall_byte (P := fun c => unhex (lowerDigits[c.toNat / 16]?.getD 0) (lowerDigits[c.toNat % 16]?.getD 0) = c)
    (by decide +kernel) c⟩

/-- What starts with the digits of a path are the digits of a path that it starts. -/
private theorem prefix_of_hexEncode {path other s : Bytes} (h : hexEncode path <+: hexEncode other ++ newline :: s) :
    path <+: other := by
  induction path generalizing other with
  | nil => exact List.nil_prefix
  | cons c path ih =>
    obtain ⟨high, low, hbyte, hc⟩ := unhex_hexByte c
    rw [hexEncode, List.flatMap_cons, hbyte] at h
    cases other with
    | nil =>
      rw [hexEncode, List.flatMap_nil, List.nil_append, List.cons_append, List.cons_prefix_cons] at h
      have hhigh := (hexByte_bytes c high (by rw [hbyte]; exact List.mem_cons_self)).2
      exact absurd h.1 hhigh
    | cons d other =>
      obtain ⟨high', low', hbyte', hd⟩ := unhex_hexByte d
      rw [hexEncode, List.flatMap_cons, hbyte'] at h
      simp only [List.cons_append, List.nil_append, List.cons_prefix_cons] at h
      obtain ⟨rfl, rfl, hrest⟩ := h
      rw [← hc, ← hd, List.cons_prefix_cons]
      exact ⟨rfl, ih hrest⟩

end Bytes

section Layout

/-- An entry whose pair is two lines, the first of them with the only hash. -/
def IsEntry (entry : Bytes × Bytes) : Prop := ∀ c ∈ entry.2, c ≠ hash ∧ c ≠ newline

private theorem rule_bytes {entry : Bytes × Bytes} (h : IsEntry entry) {c : UInt8} (hc : c ∈ rule entry.1 entry.2) :
    c ≠ hash ∧ c ≠ newline := by
  have hequals : ∀ c ∈ utf8 "=", c ≠ hash ∧ c ≠ newline := bytes_of_notMem (by decide)
  have hdollar : ∀ c ∈ utf8 "$ ", c ≠ hash ∧ c ≠ newline := bytes_of_notMem (by decide)
  rw [rule, List.mem_append, List.mem_append, List.mem_append] at hc
  rcases hc with ((hc | hc) | hc) | hc
  · exact hequals c hc
  · exact encodeAidePath_bytes hc
  · exact hdollar c hc
  · exact h c hc

private theorem markerStart_eq : utf8 "# kompli:AideAttributes:" = hash :: utf8 " kompli:AideAttributes:" := by decide

private theorem marker_eq (path : Bytes) : marker path = hash :: (utf8 " kompli:AideAttributes:" ++ hexEncode path) := by
  rw [marker, markerStart_eq, List.cons_append]

private theorem marker_prefix_append {path other s : Bytes} (h : marker path <+: marker other ++ newline :: s) :
    path <+: other := by
  rw [marker, marker, List.append_assoc, List.prefix_append_right_inj] at h
  exact prefix_of_hexEncode h

/-- The pair of another path is passed over. -/
private theorem cutAt_pair {path : Bytes} {entry : Bytes × Bytes} (hentry : IsEntry entry) (h : ¬ path <+: entry.1)
    (s : Bytes) :
    cutAt (marker path) (pair entry ++ s) =
      (cutAt (marker path) s).map fun (before, after) => (pair entry ++ before, after) := by
  have hstart : ¬ marker path <+: pair entry ++ s := by
    intro hstarts
    rw [pair, List.append_assoc, List.cons_append] at hstarts
    exact h (marker_prefix_append hstarts)
  have hrest : hash ∉ utf8 " kompli:AideAttributes:" ++ hexEncode entry.1 ++
      newline :: (rule entry.1 entry.2 ++ [newline]) := by
    have htext : hash ∉ utf8 " kompli:AideAttributes:" := by decide
    simp only [List.mem_append, List.mem_cons, List.not_mem_nil, or_false, not_or]
    exact ⟨⟨htext, fun hmem => (hexEncode_bytes hmem).1 rfl⟩, by decide, fun hmem => (rule_bytes hentry hmem).1 rfl,
      by decide⟩
  have hpair : pair entry = hash :: (utf8 " kompli:AideAttributes:" ++ hexEncode entry.1 ++
      newline :: (rule entry.1 entry.2 ++ [newline])) := by
    rw [pair, marker_eq, List.cons_append]
  rw [hpair, List.cons_append] at hstart ⊢
  rw [cutAt_cons hstart, marker_eq, cutAt_append_of_not_mem hrest, Option.map_map]
  rfl

private theorem cutAt_own_pair (path attributes s : Bytes) :
    cutAt (marker path) (pair (path, attributes) ++ s) = some ([], newline :: (rule path attributes ++ newline :: s)) := by
  rw [pair, List.append_assoc, cutAt_prefix]
  simp

theorem setManagedRule_of_none {contents path : Bytes} (h : cutAt (marker path) contents = none) (attributes : Bytes) :
    setManagedRule contents path attributes = pair (path, attributes) ++ contents := by
  have hcut : cutAt (utf8 "# kompli:AideAttributes:" ++ hexEncode path) contents = none := h
  rw [setManagedRule]
  simp only [hcut]
  simp [pair, marker, rule]

/-- What follows a marker up to the end of its line stays. -/
theorem setManagedRule_of_some {contents path before digits after : Bytes}
    (h : cutAt (marker path) contents = some (before, digits ++ newline :: after)) (hdigits : newline ∉ digits)
    (attributes : Bytes) :
    setManagedRule contents path attributes =
      before ++ (marker path ++ (digits ++ newline :: (rule path attributes ++ after.dropWhile (· ≠ newline)))) := by
  have hcut : cutAt (utf8 "# kompli:AideAttributes:" ++ hexEncode path) contents =
    some (before, digits ++ newline :: after) := h
  have hline : cutAt [newline] (digits ++ newline :: after) = some (digits, after) := by
    have hfirst : cutAt [newline] (newline :: after) = some ([], after) := cutAt_prefix [newline] after
    rw [cutAt_append_of_not_mem hdigits, hfirst]
    exact congrArg (fun line => some (line, after)) (List.append_nil digits)
  rw [setManagedRule]
  simp only [hcut, hline]
  simp [marker, rule]

private theorem setManagedRule_of_marker {contents path before after : Bytes}
    (h : cutAt (marker path) contents = some (before, newline :: after)) (attributes : Bytes) :
    setManagedRule contents path attributes =
      before ++ (marker path ++ newline :: (rule path attributes ++ after.dropWhile (· ≠ newline))) := by
  have hdigits : newline ∉ ([] : Bytes) := List.not_mem_nil
  exact setManagedRule_of_some h hdigits attributes

/-- The rule of a path is replaced in its pair. -/
private theorem setManagedRule_own_pair {entry : Bytes × Bytes} (hentry : IsEntry entry) (attributes s : Bytes) :
    setManagedRule (pair entry ++ s) entry.1 attributes = pair (entry.1, attributes) ++ s := by
  have hrule : newline ∉ rule entry.1 entry.2 := fun hmem => (rule_bytes hentry hmem).2 rfl
  rw [setManagedRule_of_marker (cutAt_own_pair entry.1 entry.2 s), dropWhile_cut hrule]
  simp [pair]

/-- A call that finds its marker behind the pair of another path leaves that pair alone. -/
private theorem setManagedRule_pair {path : Bytes} {entry : Bytes × Bytes} (hentry : IsEntry entry)
    (h : ¬ path <+: entry.1) {s before after : Bytes} (hcut : cutAt (marker path) s = some (before, newline :: after))
    (attributes : Bytes) :
    setManagedRule (pair entry ++ s) path attributes = pair entry ++ setManagedRule s path attributes := by
  have hcut' : cutAt (marker path) (pair entry ++ s) = some (pair entry ++ before, newline :: after) := by
    rw [cutAt_pair hentry h, hcut]
    rfl
  rw [setManagedRule_of_marker hcut', setManagedRule_of_marker hcut, List.append_assoc]

variable {original path : Bytes} {entries : List (Bytes × Bytes)}

/-- The pairs of other paths are passed over. -/
private theorem cutAt_passed (hentries : ∀ entry ∈ entries, IsEntry entry)
    (hstarts : ∀ entry ∈ entries, ¬ path <+: entry.1) (s : Bytes) : cutAt (marker path) (entries.flatMap pair ++ s) =
      (cutAt (marker path) s).map fun (before, after) => (entries.flatMap pair ++ before, after) := by
  induction entries with
  | nil => simp
  | cons entry entries ih =>
    rw [List.forall_mem_cons] at hentries hstarts
    rw [List.flatMap_cons, List.append_assoc, cutAt_pair hentries.1 hstarts.1, ih hentries.2 hstarts.2, Option.map_map]
    simp only [List.append_assoc]
    rfl

private theorem cutAt_layout_none (hplain : ¬ utf8 "# kompli:AideAttributes:" <:+: original)
    (hentries : ∀ entry ∈ entries, IsEntry entry) (hstarts : ∀ entry ∈ entries, ¬ path <+: entry.1) :
    cutAt (marker path) (entries.flatMap pair ++ original) = none := by
  have hnone : cutAt (marker path) original = none := by
    rw [cutAt_eq_none_iff]
    exact fun h => hplain ((List.prefix_append _ _).isInfix.trans h)
  rw [cutAt_passed hentries hstarts, hnone]
  rfl

/-- The pair of a path is changed where it is. -/
private theorem setManagedRule_layout (hentries : ∀ entry ∈ entries, IsEntry entry)
    (hstarts : ∀ entry ∈ entries, path <+: entry.1 → path = entry.1) (hnodup : (entries.map Prod.fst).Nodup)
    (hmem : path ∈ entries.map Prod.fst) (attributes : Bytes) :
    (∃ before after, cutAt (marker path) (entries.flatMap pair ++ original) = some (before, newline :: after)) ∧
      setManagedRule (entries.flatMap pair ++ original) path attributes =
        (entries.map fun entry => if entry.1 = path then (path, attributes) else entry).flatMap pair ++ original := by
  induction entries with
  | nil => cases hmem
  | cons entry entries ih =>
    rw [List.forall_mem_cons] at hentries hstarts
    rw [List.map_cons, List.nodup_cons] at hnodup
    rw [List.flatMap_cons, List.append_assoc, List.map_cons, List.flatMap_cons, List.append_assoc]
    by_cases hpath : entry.1 = path
    · subst hpath
      have hothers : (entries.map fun other => if other.1 = entry.1 then (entry.1, attributes) else other) = entries := by
        refine (List.map_congr_left fun other hother => ?_).trans (List.map_id entries)
        rw [if_neg, id]
        intro heq
        exact hnodup.1 (heq ▸ List.mem_map_of_mem hother)
      refine ⟨⟨_, _, cutAt_own_pair entry.1 entry.2 _⟩, ?_⟩
      rw [if_pos rfl, hothers, setManagedRule_own_pair hentries.1]
    · have hnot : ¬ path <+: entry.1 := fun h => hpath (hstarts.1 h).symm
      have hmem' : path ∈ entries.map Prod.fst := (List.mem_cons.mp hmem).resolve_left fun h => hpath h.symm
      obtain ⟨⟨before, after, hcut⟩, hset⟩ := ih hentries.2 hstarts.2 hnodup.2 hmem'
      refine ⟨⟨pair entry ++ before, after, ?_⟩, ?_⟩
      · rw [cutAt_pair hentries.1 hnot, hcut]
        rfl
      · rw [if_neg hpath, setManagedRule_pair hentries.1 hnot hcut, hset]

/-- A marker, and a line after it. -/
private def markedLine (entry : Bytes × Bytes) : Bytes := marker entry.1 ++ newline :: (entry.2 ++ [newline])

private def ruled (entry : Bytes × Bytes) : Bytes × Bytes := (entry.1, rule entry.1 entry.2)

private theorem flatMap_ruled (entries : List (Bytes × Bytes)) :
    (entries.map ruled).flatMap markedLine = entries.flatMap pair :=
  List.flatMap_map ruled markedLine entries

private theorem newline_not_mem_marker (path : Bytes) : newline ∉ marker path := by
  have htext : newline ∉ utf8 "# kompli:AideAttributes:" := by decide
  rw [marker, List.mem_append]
  exact not_or.mpr ⟨htext, fun hmem => (hexEncode_bytes hmem).2 rfl⟩

private theorem marker_inj {path other : Bytes} (h : marker path = marker other) : path = other := by
  have hfirst : path <+: other := marker_prefix_append (s := []) (h ▸ List.prefix_append _ _)
  have hsecond : other <+: path := marker_prefix_append (s := []) (h ▸ List.prefix_append _ _)
  exact hfirst.eq_of_length (le_antisymm hfirst.length_le hsecond.length_le)

private theorem flatMap_markedLine_inj {lefts rights : List (Bytes × Bytes)} {s t : Bytes}
    (hlefts : ∀ entry ∈ lefts, newline ∉ entry.2) (hrights : ∀ entry ∈ rights, newline ∉ entry.2)
    (hlength : lefts.length = rights.length) (h : lefts.flatMap markedLine ++ s = rights.flatMap markedLine ++ t) :
    lefts = rights := by
  induction lefts generalizing rights with
  | nil => rw [List.eq_nil_of_length_eq_zero hlength.symm]
  | cons left lefts ih =>
    cases rights with
    | nil => cases hlength
    | cons right rights =>
      rw [List.forall_mem_cons] at hlefts hrights
      have hsplit (entry : Bytes × Bytes) (more : Bytes) :
          markedLine entry ++ more = marker entry.1 ++ newline :: (entry.2 ++ newline :: more) := by simp [markedLine]
      rw [List.flatMap_cons, List.flatMap_cons, List.append_assoc, List.append_assoc, hsplit, hsplit] at h
      obtain ⟨hmarker, hlines⟩ := cut_inj (newline_not_mem_marker _) (newline_not_mem_marker _) h
      obtain ⟨hrule, hrest⟩ := cut_inj hlefts.1 hrights.1 hlines
      rw [ih hlefts.2 hrights.2 (Nat.succ.inj hlength) hrest, Prod.ext (marker_inj hmarker) hrule]

private theorem hashless {entries : List (Bytes × Bytes)} (h : ∀ entry ∈ entries, IsEntry entry) :
    ∀ line ∈ entries.map ruled, hash ∉ line.2 ∧ newline ∉ line.2 := by
  intro line hline
  obtain ⟨entry, hentry, rfl⟩ := List.mem_map.mp hline
  exact ⟨fun hmem => (rule_bytes (h entry hentry) hmem).1 rfl, fun hmem => (rule_bytes (h entry hentry) hmem).2 rfl⟩

private theorem count_markedLine {entry : Bytes × Bytes} (h : hash ∉ entry.2) : (markedLine entry).count hash = 1 := by
  have htext : (utf8 "# kompli:AideAttributes:").count hash = 1 := by decide
  have hdigits : (hexEncode entry.1).count hash = 0 := List.count_eq_zero.mpr fun hmem => (hexEncode_bytes hmem).1 rfl
  have hend : [newline].count hash = 0 := by decide
  have hnewline : newline ≠ hash := by decide
  rw [markedLine, marker, List.count_append, List.count_append, htext, hdigits, List.count_cons_of_ne hnewline,
    List.count_append, List.count_eq_zero.mpr h, hend]

private theorem count_flatMap_markedLine {entries : List (Bytes × Bytes)} (h : ∀ entry ∈ entries, hash ∉ entry.2) :
    (entries.flatMap markedLine).count hash = entries.length := by
  induction entries with
  | nil => rfl
  | cons entry entries ih =>
    rw [List.forall_mem_cons] at h
    rw [List.flatMap_cons, List.count_append, count_markedLine h.1, ih h.2, List.length_cons, Nat.add_comm]

private theorem encodeAidePath_ne_nil {path : Bytes} (h : path ≠ []) : encodeAidePath path ≠ [] := by
  obtain ⟨c, rest, rfl⟩ := List.exists_cons_of_ne_nil h
  rw [encodeAidePath, List.flatMap_cons]
  split_ifs
  · exact List.cons_ne_nil _ _
  · exact List.append_ne_nil_of_left_ne_nil (List.append_ne_nil_of_left_ne_nil (by decide) _) _

private theorem not_mem_encodeAidePath (path : Bytes) : (0x24 : UInt8) ∉ encodeAidePath path := by
  intro hmem
  obtain ⟨c, -, hc⟩ := List.mem_flatMap.mp hmem
  refine forall_byte (P := fun c =>
    (0x24 : UInt8) ∉ (if isAlnum c || c ∈ utf8 "/_-" then [c] else utf8 "%" ++ hexByte upperDigits c)) ?_ c hc
  decide +kernel

/-- The rules of two paths are different where one goes on from the other. -/
private theorem rule_ne {path rest attributes others : Bytes} (h : rest ≠ []) :
    rule (path ++ rest) attributes ≠ rule path others := by
  have hdollar : utf8 "$ " = 0x24 :: utf8 " " := by decide
  intro heq
  rw [rule, rule, List.append_assoc, List.append_assoc, List.append_assoc, List.append_assoc] at heq
  have hencoded := List.append_cancel_left heq
  rw [hdollar, List.cons_append, List.cons_append] at hencoded
  have hpath := (cut_inj (not_mem_encodeAidePath _) (not_mem_encodeAidePath _) hencoded).1
  rw [encodeAidePath, encodeAidePath, List.flatMap_append] at hpath
  exact encodeAidePath_ne_nil h (List.append_right_eq_self.mp hpath)

/-- The marker of another path is found where the first of the pairs has a path that goes on from it. -/
private theorem setManagedRule_goesOn {before after : List (Bytes × Bytes)} {entry : Bytes × Bytes} {rest : Bytes}
    (hentries : ∀ other ∈ before ++ entry :: after, IsEntry other) (hbefore : ∀ other ∈ before, ¬ path <+: other.1)
    (hentry : entry.1 = path ++ rest) (attributes : Bytes) :
    setManagedRule ((before ++ entry :: after).flatMap pair ++ original) path attributes =
      (before.map ruled ++ (entry.1, rule path attributes) :: after.map ruled).flatMap markedLine ++ original := by
  rw [List.forall_mem_append, List.forall_mem_cons] at hentries
  have hmarker : marker entry.1 = marker path ++ hexEncode rest := by
    rw [hentry, marker, marker, hexEncode, List.flatMap_append, List.append_assoc]
    rfl
  have hfound : cutAt (marker path) (pair entry ++ (after.flatMap pair ++ original)) = some ([],
      hexEncode rest ++ newline :: (rule entry.1 entry.2 ++ newline :: (after.flatMap pair ++ original))) := by
    have hpair : pair entry ++ (after.flatMap pair ++ original) = marker path ++
        (hexEncode rest ++ newline :: (rule entry.1 entry.2 ++ newline :: (after.flatMap pair ++ original))) := by
      simp [pair, hmarker]
    rw [hpair, cutAt_prefix]
  have hcut : cutAt (marker path) (before.flatMap pair ++ (pair entry ++ (after.flatMap pair ++ original))) =
      some (before.flatMap pair,
        hexEncode rest ++ newline :: (rule entry.1 entry.2 ++ newline :: (after.flatMap pair ++ original))) := by
    rw [cutAt_passed hentries.1 hbefore, hfound]
    exact congrArg some (Prod.ext (List.append_nil _) rfl)
  have hrule : newline ∉ rule entry.1 entry.2 := fun hmem => (rule_bytes hentries.2.1 hmem).2 rfl
  rw [List.flatMap_append, List.flatMap_cons, List.append_assoc, List.append_assoc,
    setManagedRule_of_some hcut (fun hmem => (hexEncode_bytes hmem).2 rfl), dropWhile_cut hrule, List.flatMap_append,
    List.flatMap_cons, flatMap_ruled, flatMap_ruled]
  simp [markedLine, hmarker]

end Layout

section Calls

/-- The bytes of an attribute list that is accepted are letters, digits, underscores and separators. -/
private theorem isEntry_of_isCall {entry : Bytes × Bytes} (h : IsCall entry) : IsEntry entry := by
  obtain ⟨params, items, hparams, hparse⟩ := h.attributes
  have hplus : plus ≠ hash ∧ plus ≠ newline := by decide
  intro c hc
  rw [← hparams] at hc
  rw [parseAttributes] at hparse
  split_ifs at hparse
  split at hparse
  · cases hparse
  · next hitems =>
    rw [List.find?_eq_none] at hitems
    have hitem {item : Bytes} (hmem : item ∈ params.attributes.splitOn plus) (hc : c ∈ item) :
        item ∈ separated params.attributes := by
      rw [separated]
      split_ifs with hlast
      · have hsplit := List.dropLast_append_getLast? [] hlast
        rw [← hsplit, List.mem_append, List.mem_singleton] at hmem
        refine hmem.resolve_right ?_
        rintro rfl
        cases hc
      · exact hmem
    by_cases hcplus : c = plus
    · rw [hcplus]
      exact hplus
    · obtain ⟨item, hmem, hc⟩ := (mem_iff_splitOn hcplus).mp hc
      have hbad := hitems item (hitem hmem hc)
      simp only [Bool.or_eq_true, decide_eq_true_eq, List.any_eq_true, not_or, not_exists, not_and] at hbad
      have hgood := hbad.2 c hc
      refine forall_byte (P := fun c => ¬ (!(isAlnum c || decide (c ∈ utf8 "_"))) = true → c ≠ hash ∧ c ≠ newline)
        (by decide +kernel) c hgood

private theorem lastAttributes_concat (calls : List (Bytes × Bytes)) (last : Bytes × Bytes) (path : Bytes) :
    lastAttributes (calls ++ [last]) path = if path = last.1 then some last.2 else lastAttributes calls path := by
  rw [lastAttributes, List.reverse_append, List.reverse_singleton, List.singleton_append, List.lookup_cons]
  by_cases h : path = last.1
  · simp [h]
  · have hne : (path == last.1) = false := by simpa using h
    rw [hne, if_neg h]
    rfl

private theorem run_concat (original : Bytes) (calls : List (Bytes × Bytes)) (last : Bytes × Bytes) :
    run original (calls ++ [last]) = setManagedRule (run original calls) last.1 last.2 := by
  rw [run, List.foldl_append, List.foldl_cons, List.foldl_nil]
  rfl

theorem mem_of_lastAttributes {calls : List (Bytes × Bytes)} {path attributes : Bytes}
    (h : lastAttributes calls path = some attributes) : (path, attributes) ∈ calls := by
  obtain ⟨before, after, heq, -⟩ := List.lookup_eq_some_iff.mp h
  rw [← List.mem_reverse, heq]
  exact List.mem_append_right _ List.mem_cons_self

theorem lastAttributes_isSome {calls : List (Bytes × Bytes)} {call : Bytes × Bytes} (h : call ∈ calls) :
    ∃ attributes, lastAttributes calls call.1 = some attributes := by
  cases hlast : lastAttributes calls call.1 with
  | some attributes => exact ⟨attributes, rfl⟩
  | none =>
    have hnone := List.lookup_eq_none_iff.mp hlast call (List.mem_reverse.mpr h)
    simp at hnone

/-- The pairs of a configuration, each of them that of a call; none comes before that of a path that goes on from it. -/
structure HasPairs (original : Bytes) (calls entries : List (Bytes × Bytes)) : Prop where
  ordered : (entries.map Prod.fst).Pairwise fun first second => first <+: second → first = second
  nodup : (entries.map Prod.fst).Nodup
  mem_iff : ∀ path attributes, (path, attributes) ∈ entries ↔ lastAttributes calls path = some attributes
  text : run original calls = entries.flatMap pair ++ original

variable {original : Bytes} {calls entries : List (Bytes × Bytes)} {last : Bytes × Bytes}

theorem HasPairs.mem (h : HasPairs original calls entries) {entry : Bytes × Bytes} (hentry : entry ∈ entries) :
    entry ∈ calls := mem_of_lastAttributes ((h.mem_iff entry.1 entry.2).mp hentry)

theorem HasPairs.mem_keys (h : HasPairs original calls entries) {path : Bytes} :
    path ∈ entries.map Prod.fst ↔ ∃ attributes, lastAttributes calls path = some attributes := by
  rw [List.mem_map]
  constructor
  · rintro ⟨entry, hentry, rfl⟩
    exact ⟨entry.2, (h.mem_iff entry.1 entry.2).mp hentry⟩
  · rintro ⟨attributes, hlast⟩
    exact ⟨_, (h.mem_iff path attributes).mpr hlast, rfl⟩

/-- A call for a path that no earlier path goes on from adds the pair of that path, or changes it. -/
theorem HasPairs.concat (hplain : ¬ utf8 "# kompli:AideAttributes:" <:+: original)
    (hcalls : ∀ call ∈ calls, IsCall call) (hstarts : ∀ call ∈ calls, last.1 <+: call.1 → last.1 = call.1)
    (h : HasPairs original calls entries) : ∃ entries, HasPairs original (calls ++ [last]) entries := by
  have hentries : ∀ entry ∈ entries, IsEntry entry := fun entry hentry => isEntry_of_isCall (hcalls _ (h.mem hentry))
  by_cases hmem : last.1 ∈ entries.map Prod.fst
  · have hkeys : (entries.map fun entry => if entry.1 = last.1 then (last.1, last.2) else entry).map Prod.fst =
        entries.map Prod.fst := by
      rw [List.map_map]
      refine List.map_congr_left fun entry _ => ?_
      simp only [Function.comp_apply]
      split_ifs with heq
      · exact heq.symm
      · rfl
    refine ⟨entries.map fun entry => if entry.1 = last.1 then (last.1, last.2) else entry, ?_, ?_,
      fun path attributes => ?_, ?_⟩
    · rw [hkeys]
      exact h.ordered
    · rw [hkeys]
      exact h.nodup
    · rw [lastAttributes_concat, List.mem_map]
      split_ifs with hpath
      · subst hpath
        constructor
        · rintro ⟨entry, hentry, heq⟩
          split_ifs at heq with hkey
          · cases heq
            rfl
          · rw [heq] at hkey
            exact absurd rfl hkey
        · intro heq
          obtain ⟨entry, hentry, hkey⟩ := List.mem_map.mp hmem
          refine ⟨entry, hentry, ?_⟩
          rw [if_pos hkey, Option.some.inj heq]
      · rw [← h.mem_iff path attributes]
        constructor
        · rintro ⟨entry, hentry, heq⟩
          split_ifs at heq with hkey
          · cases heq
            exact absurd rfl hpath
          · rwa [← heq]
        · intro hentry
          exact ⟨(path, attributes), hentry, if_neg hpath⟩
    · rw [run_concat, h.text]
      exact (setManagedRule_layout hentries (fun entry hentry => hstarts entry (h.mem hentry)) h.nodup hmem last.2).2
  · have hnot : ∀ entry ∈ entries, ¬ last.1 <+: entry.1 := by
      intro entry hentry hpre
      refine hmem (List.mem_map.mpr ⟨entry, hentry, ?_⟩)
      exact (hstarts entry (h.mem hentry) hpre).symm
    refine ⟨last :: entries, ?_, ?_, fun path attributes => ?_, ?_⟩
    · rw [List.map_cons, List.pairwise_cons]
      refine ⟨fun path hpath hstarts => ?_, h.ordered⟩
      obtain ⟨entry, hentry, rfl⟩ := List.mem_map.mp hpath
      exact absurd hstarts (hnot entry hentry)
    · rw [List.map_cons, List.nodup_cons]
      exact ⟨hmem, h.nodup⟩
    · rw [lastAttributes_concat, List.mem_cons, h.mem_iff]
      split_ifs with hpath
      · subst hpath
        have hnone : ¬ lastAttributes calls last.1 = some attributes := fun hsome => hmem (h.mem_keys.mpr ⟨_, hsome⟩)
        simp only [hnone, or_false, Option.some.injEq, Prod.ext_iff, true_and, eq_comm]
      · simp only [Prod.ext_iff, hpath, false_and, false_or]
    · rw [run_concat, h.text, setManagedRule_of_none (cutAt_layout_none hplain hentries hnot), List.flatMap_cons,
        List.append_assoc]

/-- The last call once more finds its pair as it is. -/
theorem HasPairs.repeated (hcalls : ∀ call ∈ calls, IsCall call)
    (hstarts : ∀ call ∈ calls, last.1 <+: call.1 → last.1 = call.1) (hlast : lastAttributes calls last.1 = some last.2)
    (h : HasPairs original calls entries) : run original (calls ++ [last]) = run original calls := by
  have hentries : ∀ entry ∈ entries, IsEntry entry := fun entry hentry => isEntry_of_isCall (hcalls _ (h.mem hentry))
  have hmem : last.1 ∈ entries.map Prod.fst := h.mem_keys.mpr ⟨_, hlast⟩
  have hsame : (entries.map fun entry => if entry.1 = last.1 then (last.1, last.2) else entry) = entries := by
    refine (List.map_congr_left fun entry hentry => ?_).trans (List.map_id entries)
    split_ifs with hkey
    · have hentry' := (h.mem_iff entry.1 entry.2).mp hentry
      rw [hkey, hlast] at hentry'
      exact Prod.ext hkey.symm (Option.some.inj hentry')
    · rfl
  rw [run_concat, h.text,
    (setManagedRule_layout hentries (fun entry hentry => hstarts entry (h.mem hentry)) h.nodup hmem last.2).2, hsame]

/-- The first of the pairs whose path goes on from another one; it goes on indeed, if that of any pair does. -/
theorem HasPairs.exists_first (h : HasPairs original calls entries) {path : Bytes} {longer : Bytes × Bytes}
    (hlonger : longer ∈ entries) (hstarts : path <+: longer.1) (hne : path ≠ longer.1) :
    ∃ before entry after rest, entries = before ++ entry :: after ∧ (∀ other ∈ before, ¬ path <+: other.1) ∧
      entry.1 = path ++ rest ∧ rest ≠ [] := by
  have hsome : (entries.find? fun entry => path.isPrefixOf entry.1).isSome := by
    rw [List.find?_isSome]
    exact ⟨longer, hlonger, List.isPrefixOf_iff_prefix.mpr hstarts⟩
  obtain ⟨entry, hfind⟩ := Option.isSome_iff_exists.mp hsome
  obtain ⟨hentry, before, after, rfl, hbefore⟩ := List.find?_eq_some_iff_append.mp hfind
  have hskips : ∀ other ∈ before, ¬ path <+: other.1 := by
    intro other hother hpre
    have hnot := hbefore other hother
    rw [List.isPrefixOf_iff_prefix.mpr hpre] at hnot
    cases hnot
  obtain ⟨rest, hrest⟩ := List.isPrefixOf_iff_prefix.mp hentry
  refine ⟨before, entry, after, rest, rfl, hskips, hrest.symm, ?_⟩
  rintro rfl
  -- the pair of the path itself is behind those of all that go on from it
  rw [List.append_nil] at hrest
  subst hrest
  have hordered := h.ordered
  rw [List.map_append, List.map_cons, List.pairwise_append, List.pairwise_cons] at hordered
  rcases List.mem_append.mp hlonger with hmem | hmem
  · exact hskips longer hmem hstarts
  · rcases List.mem_cons.mp hmem with rfl | hmem
    · exact hne rfl
    · exact hne (hordered.2.1.1 _ (List.mem_map_of_mem hmem) hstarts)

/-- A call for a path that an earlier one goes on from takes its marker for its own. -/
theorem HasPairs.not_managed (hcalls : ∀ call ∈ calls ++ [last], IsCall call) (h : HasPairs original calls entries)
    {call : Bytes × Bytes} (hcall : call ∈ calls) (hstarts : last.1 <+: call.1) (hne : last.1 ≠ call.1) :
    ¬ Managed original (calls ++ [last]) := by
  rintro ⟨⟨others, -, hothers, htext⟩, -⟩
  obtain ⟨attributes, hattributes⟩ := lastAttributes_isSome hcall
  obtain ⟨before, entry, after, rest, rfl, hbefore, hentry, hrest⟩ :=
    h.exists_first ((h.mem_iff _ _).mpr hattributes) hstarts hne
  have hentries : ∀ other ∈ before ++ entry :: after, IsEntry other :=
    fun other hother => isEntry_of_isCall (hcalls other (List.mem_append_left _ (h.mem hother)))
  have hlast : IsEntry (last.1, last.2) := isEntry_of_isCall (hcalls last (List.mem_append_right _ List.mem_cons_self))
  have hother : ∀ other ∈ others, IsEntry other := fun other hmem =>
    isEntry_of_isCall (hcalls other (mem_of_lastAttributes ((hothers other.1 other.2).mp hmem)))
  have hlines : ∀ line ∈ before.map ruled ++ (entry.1, rule last.1 last.2) :: after.map ruled,
      hash ∉ line.2 ∧ newline ∉ line.2 := by
    rw [List.forall_mem_append, List.forall_mem_cons] at hentries ⊢
    refine ⟨hashless hentries.1, ?_, hashless hentries.2.2⟩
    exact ⟨fun hmem => (rule_bytes hlast hmem).1 rfl, fun hmem => (rule_bytes hlast hmem).2 rfl⟩
  rw [run_concat, h.text, setManagedRule_goesOn hentries hbefore hentry, ← flatMap_ruled others] at htext
  have hcount := congrArg (List.count hash) htext
  rw [List.count_append, List.count_append, count_flatMap_markedLine fun line hline => (hlines line hline).1,
    count_flatMap_markedLine fun line hline => (hashless hother line hline).1] at hcount
  have hsame := flatMap_markedLine_inj (fun line hline => (hlines line hline).2)
    (fun line hline => (hashless hother line hline).2) (Nat.add_right_cancel hcount) htext
  have hmem : (entry.1, rule last.1 last.2) ∈ others.map ruled := by
    rw [← hsame]
    exact List.mem_append_right _ List.mem_cons_self
  obtain ⟨other, -, hruled⟩ := List.mem_map.mp hmem
  obtain ⟨hpath, hrule⟩ := Prod.mk.inj hruled
  rw [hpath, hentry] at hrule
  exact rule_ne hrest hrule

/-- No call is for a path that a path of an earlier call goes on from. -/
def NoneGoesOn (calls : List (Bytes × Bytes)) : Prop :=
  calls.Pairwise fun earlier later => later.1 <+: earlier.1 → later.1 = earlier.1

private theorem exists_hasPairs (hplain : ¬ utf8 "# kompli:AideAttributes:" <:+: original)
    (hcalls : ∀ call ∈ calls, IsCall call) (hpaths : NoneGoesOn calls) : ∃ entries, HasPairs original calls entries := by
  induction calls using List.reverseRecOn with
  | nil => exact ⟨[], List.Pairwise.nil, List.nodup_nil, by simp [lastAttributes], rfl⟩
  | append_singleton calls last ih =>
    obtain ⟨hearlier, -, hlast⟩ := List.pairwise_append.mp hpaths
    rw [List.forall_mem_append] at hcalls
    obtain ⟨entries, h⟩ := ih hcalls.1 hearlier
    exact h.concat hplain hcalls.1 fun call hcall => hlast call hcall last (List.mem_singleton.mpr rfl)

theorem managed (hplain : ¬ utf8 "# kompli:AideAttributes:" <:+: original) (hcalls : ∀ call ∈ calls, IsCall call)
    (hpaths : NoneGoesOn calls) : Managed original calls := by
  obtain ⟨entries, h⟩ := exists_hasPairs hplain hcalls hpaths
  refine ⟨⟨entries, h.nodup, h.mem_iff, h.text⟩, fun last hlast => ?_⟩
  obtain ⟨init, rfl⟩ := List.getLast?_eq_some_iff.mp hlast
  refine h.repeated hcalls (fun call hcall hpre => ?_) ?_
  · obtain ⟨-, -, hafter⟩ := List.pairwise_append.mp hpaths
    rcases List.mem_append.mp hcall with hinit | hsingle
    · exact hafter call hinit last (List.mem_singleton.mpr rfl) hpre
    · rw [List.mem_singleton.mp hsingle]
  · rw [lastAttributes_concat, if_pos rfl]

/-- Every configuration of a run is as it should be exactly where no call is for a path that an earlier one goes on
from. -/
theorem run_managed_iff (hplain : ¬ utf8 "# kompli:AideAttributes:" <:+: original)
    (hcalls : ∀ call ∈ calls, IsCall call) :
    (∀ count, Managed original (calls.take count)) ↔ NoneGoesOn calls := by
  constructor
  · induction calls using List.reverseRecOn with
    | nil => exact fun _ => List.Pairwise.nil
    | append_singleton calls last ih =>
      intro hall
      have hearlier : NoneGoesOn calls := by
        refine ih (fun call hcall => hcalls call (List.mem_append_left _ hcall)) fun count => ?_
        have hcount := hall (min count calls.length)
        rwa [List.take_append_of_le_length (Nat.min_le_right _ _), ← List.take_take, List.take_length] at hcount
      obtain ⟨entries, h⟩ :=
        exists_hasPairs hplain (fun call hcall => hcalls call (List.mem_append_left _ hcall)) hearlier
      refine List.pairwise_append.mpr ⟨hearlier, List.pairwise_singleton _ _, fun call hcall other hother hstarts => ?_⟩
      rw [List.mem_singleton] at hother
      subst hother
      by_contra hne
      have hlast := hall (calls ++ [other]).length
      rw [List.take_length] at hlast
      exact h.not_managed hcalls hcall hstarts hne hlast
  · exact fun hpaths count => managed hplain (fun call hcall => hcalls call (List.mem_of_mem_take hcall))
      (List.Pairwise.sublist (List.take_sublist count calls) hpaths)

private theorem isCall_of {path attributes : Bytes} (hpath : ¬ ∃ c ∈ path, c ∈ utf8 "\r\n")
    (h : (parseAttributes { configPath := path, filename := path, attributes }).isOk = true) :
    IsCall (path, attributes) := by
  refine ⟨hpath, ?_⟩
  cases hparse : parseAttributes { configPath := path, filename := path, attributes } with
  | ok items => exact ⟨_, items, rfl, hparse⟩
  | error e =>
    rw [hparse] at h
    cases h

/-- A path, and then one that goes on from it. -/
theorem run_managed_shadow :
    Managed (utf8 "/etc R\n") ([(utf8 "/bin", utf8 "sha512"), (utf8 "/bin/su", utf8 "p+i+n")].take 2) := by
  refine (run_managed_iff ?_ ?_).mpr ?_ 2
  · rw [← cutAt_eq_none_iff]
    decide
  · rw [List.forall_mem_cons, List.forall_mem_singleton]
    exact ⟨isCall_of (by decide) (by decide), isCall_of (by decide) (by decide)⟩
  · rw [NoneGoesOn]
    decide

private theorem length_le_count (entries : List (Bytes × Bytes)) :
    entries.length ≤ (entries.flatMap pair).count hash := by
  induction entries with
  | nil => exact Nat.zero_le _
  | cons entry entries ih =>
    have hone : 0 < (pair entry).count hash := by
      rw [List.count_pos_iff, pair, marker_eq]
      exact List.mem_cons_self
    rw [List.flatMap_cons, List.count_append, List.length_cons]
    omega

/-- The rule of a path is taken for that of another that goes on from it. -/
theorem run_disturbs :
    (∀ call ∈ [(utf8 "/bin/su", utf8 "p"), (utf8 "/bin", utf8 "i")], IsCall call) ∧
      ¬ Managed [] [(utf8 "/bin/su", utf8 "p"), (utf8 "/bin", utf8 "i")] := by
  constructor
  · rw [List.forall_mem_cons, List.forall_mem_singleton]
    exact ⟨isCall_of (by decide) (by decide), isCall_of (by decide) (by decide)⟩
  · intro h
    obtain ⟨entries, -, hmem, htext⟩ := h.pairs
    have hsu : (utf8 "/bin/su", utf8 "p") ∈ entries := (hmem _ _).mpr (by decide)
    have hbin : (utf8 "/bin", utf8 "i") ∈ entries := (hmem _ _).mpr (by decide)
    have hcount : (run [] [(utf8 "/bin/su", utf8 "p"), (utf8 "/bin", utf8 "i")]).count hash = 1 := by decide
    have hlength := length_le_count entries
    rw [List.append_nil] at htext
    rw [← htext, hcount] at hlength
    rcases entries with _ | ⟨first, _ | ⟨second, entries⟩⟩
    · cases hsu
    · rw [List.mem_singleton] at hsu hbin
      exact absurd (hsu.trans hbin.symm) (by decide)
    · rw [List.length_cons, List.length_cons] at hlength
      omega

end Calls

end Kompli.AideAttributes
