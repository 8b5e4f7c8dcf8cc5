import Kompli.Procedures.DefaultUmask

/-! What the remediation of the umask changes, and that the next audit finds the change. -/
namespace Kompli.DefaultUmask
open Foundation Streams StringTools

section Texts

variable {line contents : Bytes} {start length : Nat}

/-- Every line that is judged has a value, with which another takes its place. -/
theorem replaced_of_findValue (h : findValue line = some (start, length)) : ∃ lead value trail, line = lead ++ (value ++ trail) ∧
    start = lead.length ∧ length = value.length ∧ (Octal value ∨ Symbolic value) ∧
      matchLine (lead ++ (utf8 "027" ++ trail)) = some (.ok .correct) := by
  unfold findValue at h
  split at h
  · rename_i w hsearch
    obtain ⟨lead, value, trail, hline, hfound, -⟩ := valueLine_of_search hsearch
    rw [hfound, Option.map_some, Option.some.injEq, Prod.mk.injEq] at h
    obtain ⟨rfl, rfl⟩ := h
    exact ⟨lead, value, trail, hline.line, rfl, rfl, hline.value, matchLine_newValue hline⟩
  · split at h
    · rename_i w hsearch
      obtain ⟨lead, key, value, trail, hline, hfound, hfurthest⟩ := pamLine_of_search hsearch
      rw [hfound, Option.map_some, Option.some.injEq, Prod.mk.injEq] at h
      obtain ⟨rfl, rfl⟩ := h
      refine ⟨lead ++ key, value, trail, ?_, rfl, rfl, .inl hline.value, ?_⟩
      · rw [hline.line, List.append_assoc]
      · rw [List.append_assoc]
        exact matchLine_newSetting hline hfurthest
    · cases h

/-- The audit and the remediation find the same lines. -/
theorem matchLine_eq_none_iff : matchLine line = none ↔ findValue line = none := by
  unfold matchLine findValue
  cases hvalue : valuePattern.search line with
  | some w =>
    obtain ⟨lead, value, trail, -, hfound, -⟩ := valueLine_of_search hvalue
    dsimp only
    rw [hfound]
    split_ifs
    · simp
    · simp
  | none =>
    cases hpam : pamPattern.search line with
    | some w =>
      obtain ⟨lead, key, value, trail, -, hfound, -⟩ := pamLine_of_search hpam
      dsimp only
      rw [hfound]
      simp
    | none => simp

theorem multilineMatch_of_not_mem (h : newline ∉ line) (hne : line ≠ []) :
    multilineMatch line = (matchLine line).getD (.ok .notFound) := by
  rw [multilineMatch, lines_of_not_mem h hne]
  cases hmatch : matchLine line with
  | none => simp [hmatch]
  | some result => simp [hmatch]

theorem multilineMatch_append (h : newline ∉ line) (rest : Bytes) :
    multilineMatch (line ++ newline :: rest) = (matchLine line).getD (multilineMatch rest) := by
  rw [multilineMatch, lines_append h, List.findSome?_cons]
  cases matchLine line with
  | none => rfl
  | some result => rfl

theorem newline_not_mem_newValue : newline ∉ utf8 "027" := by decide

/-- What is found in a text is a value, and with the new one in its place the text is right. -/
theorem findInLines_spec {lineStart : Nat} (h : findInLines lineStart (contents.splitOn newline) = some (start, length)) :
    ∃ before value after, contents = before ++ (value ++ after) ∧ start = lineStart + before.length ∧ length = value.length ∧
      (Octal value ∨ Symbolic value) ∧ multilineMatch (before ++ (utf8 "027" ++ after)) = .ok .correct := by
  induction contents using lines_induction newline generalizing lineStart with
  | last line hline =>
    rw [List.splitOn_eq_singleton hline, findInLines] at h
    cases hfound : findValue line with
    | none =>
      rw [hfound] at h
      cases h
    | some place =>
      rw [hfound] at h
      obtain ⟨rfl, rfl⟩ := Prod.mk.injEq .. ▸ Option.some.inj h
      obtain ⟨lead, value, trail, rfl, hstart, hlength, hvalue, hmatch⟩ := replaced_of_findValue hfound
      refine ⟨lead, value, trail, rfl, by rw [hstart], hlength, hvalue, ?_⟩
      simp only [List.mem_append, not_or] at hline
      rw [multilineMatch_of_not_mem, hmatch]
      · rfl
      · simp only [List.mem_append, not_or]
        exact ⟨hline.1, newline_not_mem_newValue, hline.2.2⟩
      · simp [utf8]
  | cons line rest hline ih =>
    rw [splitOn_append_cons hline, findInLines] at h
    cases hfound : findValue line with
    | none =>
      rw [hfound] at h
      obtain ⟨before, value, after, rfl, hstart, hlength, hvalue, hmatch⟩ := ih h
      refine ⟨line ++ newline :: before, value, after, by simp, ?_, hlength, hvalue, ?_⟩
      · rw [hstart, List.length_append, List.length_cons]
        omega
      · rw [List.append_assoc, List.cons_append, multilineMatch_append hline, matchLine_eq_none_iff.mpr hfound]
        exact hmatch
    | some place =>
      rw [hfound] at h
      obtain ⟨rfl, rfl⟩ := Prod.mk.injEq .. ▸ Option.some.inj h
      obtain ⟨lead, value, trail, rfl, hstart, hlength, hvalue, hmatch⟩ := replaced_of_findValue hfound
      refine ⟨lead, value, trail ++ newline :: rest, by simp, by rw [hstart], hlength, hvalue, ?_⟩
      simp only [List.mem_append, not_or] at hline
      have hnew : newline ∉ lead ++ (utf8 "027" ++ trail) := by
        simp only [List.mem_append, not_or]
        exact ⟨hline.1, newline_not_mem_newValue, hline.2.2⟩
      have hsame : lead ++ (utf8 "027" ++ (trail ++ newline :: rest)) = (lead ++ (utf8 "027" ++ trail)) ++ newline :: rest := by simp
      rw [hsame, multilineMatch_append hnew, hmatch]
      rfl

theorem findInLines_last_eq_none {lineStart : Nat} (h : newline ∉ line) :
    findInLines lineStart (line.splitOn newline) = none ↔ findValue line = none := by
  rw [List.splitOn_eq_singleton h, findInLines]
  cases findValue line with
  | none => exact iff_of_true rfl rfl
  | some place => simp

theorem findInLines_append_eq_none {lineStart : Nat} {rest : Bytes} (h : newline ∉ line) :
    findInLines lineStart ((line ++ newline :: rest).splitOn newline) = none ↔
      findValue line = none ∧ findInLines (lineStart + line.length + 1) (rest.splitOn newline) = none := by
  rw [splitOn_append_cons h, findInLines]
  cases findValue line with
  | none => simp
  | some place => simp

theorem multilineMatch_of_none {lineStart : Nat} (h : findInLines lineStart (contents.splitOn newline) = none) :
    multilineMatch contents = .ok .notFound := by
  induction contents using lines_induction newline generalizing lineStart with
  | last line hline =>
    rw [findInLines_last_eq_none hline] at h
    by_cases hne : line = []
    · subst hne
      rfl
    · rw [multilineMatch_of_not_mem hline hne, matchLine_eq_none_iff.mpr h]
      rfl
  | cons line rest hline ih =>
    rw [findInLines_append_eq_none hline] at h
    rw [multilineMatch_append hline, matchLine_eq_none_iff.mpr h.1]
    exact ih h.2

theorem matchLine_umask : matchLine (utf8 "umask 027") = some (.ok .correct) := by decide

theorem multilineMatch_umask : multilineMatch (utf8 "umask 027\n") = .ok .correct := by
  have hline : utf8 "umask 027\n" = utf8 "umask 027" ++ newline :: [] := by decide
  rw [hline, multilineMatch_append (by decide), matchLine_umask]
  rfl

theorem appendUmask_append (line rest : Bytes) :
    appendUmask (line ++ newline :: rest) = line ++ newline :: appendUmask rest := by
  unfold appendUmask
  by_cases hrest : rest = []
  · subst hrest
    simp
  · have hlast : (line ++ newline :: rest).getLast? = rest.getLast? := by
      rw [List.getLast?_append_of_ne_nil _ (List.cons_ne_nil _ _), List.getLast?_cons_of_ne_nil hrest]
    rw [hlast]
    by_cases hclosed : rest.getLast? = some newline
    · simp [hclosed]
    · simp [hclosed, hrest]

/-- With a line appended, a text that sets no umask is right. -/
theorem multilineMatch_appendUmask {lineStart : Nat} (h : findInLines lineStart (contents.splitOn newline) = none) :
    multilineMatch (appendUmask contents) = .ok .correct := by
  induction contents using lines_induction newline generalizing lineStart with
  | last line hline =>
    rw [findInLines_last_eq_none hline] at h
    by_cases hne : line = []
    · subst hne
      exact multilineMatch_umask
    · have hlast : line.getLast? ≠ some newline := fun hlast => hline (List.mem_of_getLast? hlast)
      rw [appendUmask, if_pos ⟨hne, hlast⟩, List.append_assoc, List.singleton_append, multilineMatch_append hline,
        matchLine_eq_none_iff.mpr h]
      exact multilineMatch_umask
  | cons line rest hline ih =>
    rw [findInLines_append_eq_none hline] at h
    rw [appendUmask_append, multilineMatch_append hline, matchLine_eq_none_iff.mpr h.1]
    exact ih h.2

end Texts

section Convergence

variable {host : Host} {files : Files} {locations : List Bytes} {change : UmaskChange}

/-- No location has a setting. -/
def Unset (files : Files) (locations : List Bytes) : Prop :=
  ∀ location ∈ locations, ∀ contents, files location = some contents → findInLines 0 (contents.splitOn newline) = none

theorem auditLocations_compliant {indicators : List Indicator} {found : Bool} {before after : List Bytes} {location contents : Bytes}
    (hbefore : ∀ path ∈ before, ∀ contents, files path = some contents → multilineMatch contents = .ok .notFound)
    (hfile : files location = some contents) (hmatch : multilineMatch contents = .ok .correct) :
    (auditLocations files indicators found (before ++ location :: after)).result = .ok .compliant := by
  induction before generalizing indicators found with
  | nil =>
    rw [List.nil_append, auditLocations, hfile]
    dsimp only
    rw [hmatch]
    rfl
  | cons path before ih =>
    rw [List.forall_mem_cons] at hbefore
    rw [List.cons_append, auditLocations]
    cases hpath : files path with
    | none => exact ih hbefore.2
    | some text =>
      dsimp only
      rw [hbefore.1 text hpath]
      exact ih hbefore.2

/-- The change is in the first location with a setting. -/
theorem findUmaskChange_eq_some (h : findUmaskChange files locations = some change) : ∃ before after start length,
    locations = before ++ change.path :: after ∧ Unset files before ∧ files change.path = some change.original ∧
      findInLines 0 (change.original.splitOn newline) = some (start, length) ∧
      change.updated = change.original.take start ++ utf8 "027" ++ change.original.drop (start + length) := by
  induction locations with
  | nil => cases h
  | cons location locations ih =>
    have hskip (hlater : findUmaskChange files locations = some change)
        (hnone : ∀ contents, files location = some contents → findInLines 0 (contents.splitOn newline) = none) :
        ∃ before after start length, location :: locations = before ++ change.path :: after ∧ Unset files before ∧
          files change.path = some change.original ∧ findInLines 0 (change.original.splitOn newline) = some (start, length) ∧
          change.updated = change.original.take start ++ utf8 "027" ++ change.original.drop (start + length) := by
      obtain ⟨before, after, start, length, rfl, hbefore, hrest⟩ := ih hlater
      exact ⟨location :: before, after, start, length, rfl, List.forall_mem_cons.mpr ⟨hnone, hbefore⟩, hrest⟩
    rw [findUmaskChange] at h
    cases hfile : files location with
    | none =>
      rw [hfile] at h
      refine hskip h fun contents hcontents => ?_
      rw [hfile] at hcontents
      cases hcontents
    | some original =>
      rw [hfile] at h
      dsimp only at h
      cases hfound : findInLines 0 (original.splitOn newline) with
      | none =>
        rw [hfound] at h
        refine hskip h fun contents hcontents => ?_
        obtain rfl := Option.some.inj (hfile.symm.trans hcontents)
        exact hfound
      | some place =>
        rw [hfound] at h
        obtain rfl := Option.some.inj h
        exact ⟨[], locations, place.1, place.2, rfl, fun _ hmem => absurd hmem List.not_mem_nil, hfile, hfound, rfl⟩

theorem findUmaskChange_eq_none (h : findUmaskChange files locations = none) : Unset files locations := by
  induction locations with
  | nil => exact fun _ hmem => absurd hmem List.not_mem_nil
  | cons location locations ih =>
    rw [findUmaskChange] at h
    cases hfile : files location with
    | none =>
      rw [hfile] at h
      refine List.forall_mem_cons.mpr ⟨fun contents hcontents => ?_, ih h⟩
      rw [hfile] at hcontents
      cases hcontents
    | some original =>
      rw [hfile] at h
      dsimp only at h
      cases hfound : findInLines 0 (original.splitOn newline) with
      | none =>
        rw [hfound] at h
        refine List.forall_mem_cons.mpr ⟨fun contents hcontents => ?_, ih h⟩
        obtain rfl := Option.some.inj (hfile.symm.trans hcontents)
        exact hfound
      | some place =>
        rw [hfound] at h
        cases h

/-- After a change to a right text, which is no change of what comes before, the audit passes. -/
theorem audit_update {before after : List Bytes} {path text : Bytes} (hlocations : getUmaskLocations host = before ++ path :: after)
    (hbefore : Unset files before) (hpath : path ∉ before) (hmatch : multilineMatch text = .ok .correct) :
    (auditDefaultUmask host (Function.update files path (some text))).result = .ok .compliant := by
  rw [auditDefaultUmask, hlocations]
  refine auditLocations_compliant (fun location hlocation contents hcontents => ?_) (Function.update_self _ _ _) hmatch
  have hne : location ≠ path := by
    rintro rfl
    exact hpath hlocation
  rw [Function.update_of_ne hne] at hcontents
  exact multilineMatch_of_none (hbefore location hlocation contents hcontents)

theorem mem_getUmaskLocations : host.specialFilePath (utf8 "/etc/profile") ∈ getUmaskLocations host :=
  List.mem_append_right _ (List.mem_map_of_mem (by decide))

/-- What a change that is selected is: one value in one location, or the profile with a line appended where no location
has a setting. -/
inductive Selects (host : Host) (files : Files) (change : UmaskChange) : Prop where
  | value (before value after : Bytes) (hpath : change.path ∈ getUmaskLocations host)
      (hfound : findInLines 0 (change.original.splitOn newline) = some (before.length, value.length))
      (hvalue : Octal value ∨ Symbolic value) (horiginal : change.original = before ++ (value ++ after))
      (hupdated : change.updated = before ++ (utf8 "027" ++ after))
  | line (hunset : Unset files (getUmaskLocations host)) (hpath : change.path = host.specialFilePath (utf8 "/etc/profile"))
      (hupdated : change.updated = appendUmask change.original)

theorem selectChange_spec (h : selectChange host files = .ok change) : Selects host files change ∧
    files change.path = some change.original ∧
      (auditDefaultUmask host (Function.update files change.path (some change.updated))).result = .ok .compliant := by
  unfold selectChange at h
  cases hchange : findUmaskChange files (getUmaskLocations host) with
  | some found =>
    rw [hchange] at h
    obtain rfl : found = change := Except.ok.inj h
    obtain ⟨before, after, start, length, hlocations, hunset, hfile, hfound, hupdated⟩ := findUmaskChange_eq_some hchange
    obtain ⟨lead, value, trail, hcontents, rfl, rfl, hvalue, hmatch⟩ := findInLines_spec hfound
    rw [Nat.zero_add] at hfound hupdated
    have hnew : found.updated = lead ++ (utf8 "027" ++ trail) := by
      rw [hupdated, hcontents, List.take_left, ← List.drop_drop, List.drop_left, List.drop_left, List.append_assoc]
    refine ⟨.value lead value trail (by rw [hlocations]; simp) hfound hvalue hcontents hnew, hfile, ?_⟩
    refine audit_update hlocations hunset (fun hmem => ?_) (hnew ▸ hmatch)
    rw [hunset _ hmem _ hfile] at hfound
    cases hfound
  | none =>
    rw [hchange] at h
    have hunset := findUmaskChange_eq_none hchange
    dsimp only at h
    cases hprofile : files (host.specialFilePath (utf8 "/etc/profile")) with
    | none =>
      rw [hprofile] at h
      cases h
    | some original =>
      rw [hprofile] at h
      obtain rfl := Except.ok.inj h
      refine ⟨.line hunset rfl rfl, hprofile, ?_⟩
      obtain ⟨before, after, hlocations, hnot⟩ := List.eq_append_cons_of_mem (@mem_getUmaskLocations host)
      refine audit_update hlocations (fun path hpath => hunset path ?_) hnot
        (multilineMatch_appendUmask (hunset _ mem_getUmaskLocations _ hprofile))
      rw [hlocations]
      exact List.mem_append_left _ hpath

theorem selectChange_isOk (h : (findUmaskChange files (getUmaskLocations host)).isSome ∨
    (files (host.specialFilePath (utf8 "/etc/profile"))).isSome) : ∃ change, selectChange host files = .ok change := by
  unfold selectChange
  cases hchange : findUmaskChange files (getUmaskLocations host) with
  | some change => exact ⟨change, rfl⟩
  | none =>
    rw [hchange] at h
    rcases h with h | h
    · cases h
    · obtain ⟨original, horiginal⟩ := Option.isSome_iff_exists.mp h
      dsimp only
      rw [horiginal]
      exact ⟨_, rfl⟩

end Convergence

section Law

variable {host : Host} {outcomes : Outcomes} {s : Run}

/-- A remediation of what is not compliant changes one value or appends one line, and the next audit is compliant. -/
theorem remediateDefaultUmask_converges (haudit : (auditDefaultUmask host s.files).result = .ok .nonCompliant)
    (hchange : (findUmaskChange s.files (getUmaskLocations host)).isSome ∨
      (s.files (host.specialFilePath (utf8 "/etc/profile"))).isSome)
    (hreplace : outcomes.replace = none) :
    ∃ change t, remediateDefaultUmask host outcomes s = .ok .compliant t ∧ Selects host s.files change ∧
      s.files change.path = some change.original ∧
      t.files = Function.update s.files change.path (some change.updated) ∧
      (auditDefaultUmask host t.files).result = .ok .compliant := by
  obtain ⟨change, hselected⟩ := selectChange_isOk hchange
  obtain ⟨hselects, hfile, hafter⟩ := selectChange_spec hselected
  let audited : Run := { s with indicators := s.indicators ++ (auditDefaultUmask host s.files).indicators }
  let changed : Run := { audited with files := Function.update s.files change.path (some change.updated) }
  have hfirst : audit host s = .ok (.ok .nonCompliant) audited := by
    rw [← haudit]
    rfl
  have hwrite : replaceFileContentsAtomic outcomes.replace change.path change.updated audited = .ok none changed := by
    rw [hreplace]
    rfl
  have hsecond : audit host changed = .ok (.ok .compliant)
      { changed with indicators := changed.indicators ++ (auditDefaultUmask host changed.files).indicators } := by
    rw [← hafter]
    rfl
  refine ⟨change, { changed with indicators := changed.indicators ++ (auditDefaultUmask host changed.files).indicators }, ?_,
    hselects, hfile, rfl, hafter⟩
  have hselected' : (ofExcept (selectChange host audited.files) : UmaskM UmaskChange) audited = .ok change audited := by
    rw [show audited.files = s.files from rfl, hselected]
    rfl
  have hget : (get : UmaskM Run) audited = .ok audited audited := rfl
  rw [remediateDefaultUmask, bind_run_ok _ hfirst, if_neg (by decide), bind_run_ok _ hget, bind_run_ok _ hselected',
    bind_run_ok _ hwrite]
  dsimp only
  rw [bind_run_ok _ hsecond, if_pos (by decide)]
  rfl

/-- The profile sets a umask that leaves more than it should. -/
private def laxProfile : Files := fun path => if path = utf8 "/etc/profile" then some (utf8 "umask 022\n") else none

private def plainHost : Host where
  names := none
  specialFilePath := id

private theorem laxProfile_audit : (auditDefaultUmask plainHost laxProfile).result = .ok .nonCompliant := by
  have hoption : (auditDefaultUmask plainHost laxProfile).result.toOption = some .nonCompliant := by decide
  cases hresult : (auditDefaultUmask plainHost laxProfile).result with
  | error e =>
    rw [hresult] at hoption
    cases hoption
  | ok status =>
    rw [hresult] at hoption
    exact congrArg Except.ok (Option.some.inj hoption)

theorem laxProfile_converges : ∃ change t, remediateDefaultUmask plainHost { replace := none, rollback := none }
      { files := laxProfile } = .ok .compliant t ∧ Selects plainHost laxProfile change ∧
    laxProfile change.path = some change.original ∧
    t.files = Function.update laxProfile change.path (some change.updated) ∧
    (auditDefaultUmask plainHost t.files).result = .ok .compliant :=
  remediateDefaultUmask_converges laxProfile_audit (.inr (by decide)) rfl

end Law

end Kompli.DefaultUmask
