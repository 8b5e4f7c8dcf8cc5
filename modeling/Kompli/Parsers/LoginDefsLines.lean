import Kompli.Foundation.ExceptRule
import Kompli.Parsers.LoginDefs

/-! What a document says of the lines it was read from, in whatever order they are. -/
namespace Kompli.LoginDefs
open Foundation Streams StringTools

section Keys

theorem ofName_eq_some {name : Bytes} {k : Key} : Key.ofName name = some k ↔ k.name = name := by
  rw [Key.ofName]
  constructor
  · intro h
    simpa using List.find?_some h
  · rintro rfl
    cases k <;> decide +kernel

@[simp] theorem get_set_self (document : Document) (k : Key) (v : k.Value) : (document.set k v).get k = some v := by
  cases k <;> rfl

theorem get_set_of_ne (document : Document) {k k' : Key} (h : k' ≠ k) (v : k.Value) :
    (document.set k v).get k' = document.get k' := by
  cases k <;> cases k' <;> first | rfl | exact absurd rfl h

@[simp] theorem source_set (document : Document) (k : Key) (v : k.Value) : (document.set k v).source = document.source := by
  cases k <;> rfl

theorem Document.ext_get {document other : Document} (hsource : document.source = other.source)
    (h : ∀ k v, document.get k = some v ↔ other.get k = some v) : document = other := by
  have hget : ∀ k, document.get k = other.get k := fun k => Option.ext (h k)
  have huid := hget .uidMin
  have hmax := hget .passMaxDays
  have hmin := hget .passMinDays
  have hwarn := hget .passWarnAge
  have hmethod := hget .encryptMethod
  cases document
  cases other
  simp only [Document.get] at huid hmax hmin hwarn hmethod
  simp only at hsource
  rw [hsource, huid, hmax, hmin, hwarn, hmethod]

end Keys

section Lines

/-- A line that gives a known key a value. -/
def Assigns (line : Bytes) (k : Key) (v : k.Value) : Prop :=
  IsRecord line ∧ k.name = key line ∧ k.parse (value line) = .ok v

/-- A line that the parser takes, wherever it comes. -/
structure Accepted (line : Bytes) : Prop where
  length : line.length ≤ maxLineBytes
  nulFree : NulFree line
  value : IsRecord line → stripComment (fromValue line) ≠ []
  known : IsRecord line → ∀ k : Key, k.name = key line → ∃ v, Assigns line k v

/-- The names seen so far are those of the keys that have a value. -/
def Tracks (s : State) : Prop := ∀ k : Key, k.name ∈ s.seen ↔ ∃ v, s.document.get k = some v

/-- What a line leaves of the document. -/
structure Reads (s : State) (line : Bytes) (t : State) : Prop where
  accepted : Accepted line
  room : IsRecord line → s.recordCount < maxRecords
  source : t.document.source = s.document.source
  recordCount : t.recordCount = s.recordCount + if IsRecord line then 1 else 0
  keeps : ∀ k v, s.document.get k = some v → t.document.get k = some v
  assigns : ∀ k v, Assigns line k v → t.document.get k = some v
  from_line : ∀ k v, t.document.get k = some v → s.document.get k = some v ∨ Assigns line k v
  tracks : Tracks t

theorem name_injective {k k' : Key} (h : k.name = k'.name) : k = k' :=
  Option.some.inj ((ofName_eq_some.mpr h).symm.trans (ofName_eq_some.mpr rfl))

private theorem ofName_none {name : Bytes} (h : Key.ofName name = none) (k : Key) : k.name ≠ name := by
  intro heq
  rw [ofName_eq_some.mpr heq] at h
  cases h

/-- The record of a known key that is new sets it, and one that comes again has to agree. -/
private theorem parseRecord_ok_iff {document document' : Document} {lineNumber column : Nat} {value : Bytes}
    {firstOccurrence : Bool} (k : Key) :
    parseRecord document lineNumber column k.name value firstOccurrence = .ok document' ↔
      ∃ v, k.parse value = .ok v ∧ ((firstOccurrence = true ∧ document' = document.set k v) ∨
        (firstOccurrence = false ∧ document.get k = some v ∧ document' = document)) := by
  rw [parseRecord, ofName_eq_some.mpr rfl]
  cases hparse : k.parse value with
  | error e => simp [hparse]
  | ok v =>
    cases firstOccurrence with
    | true =>
      have hnot : ¬ ((true : Bool) = false ∧ document.get k ≠ some v) := fun h => (nomatch h.1)
      simp only [hparse, if_neg hnot, if_true, Except.ok.injEq, exists_eq_left', true_and]
      exact ⟨fun h => .inl h.symm, fun h => (h.resolve_right fun hfalse => (nomatch hfalse.1)).symm⟩
    | false =>
      simp only [hparse, true_and, Bool.false_eq_true, if_false, Except.ok.injEq, exists_eq_left', false_and, false_or]
      by_cases hget : document.get k = some v
      · rw [if_neg (by simp [hget]), Except.ok.injEq]
        exact ⟨fun h => ⟨hget, h.symm⟩, fun h => h.2.symm⟩
      · rw [if_pos hget]
        exact ⟨fun h => (nomatch h), fun h => absurd h.1 hget⟩

private theorem mem_insert_iff {seen : List Bytes} {name other : Bytes} :
    other ∈ seen.insert name ↔ other = name ∨ other ∈ seen := List.mem_insert_iff

theorem parseLine_ok {s t : State} {line : Bytes} (htracks : Tracks s) (h : parseLine s line = .ok t) : Reads s line t := by
  rw [parseLine] at h
  split_ifs at h with hlength hnul hrecord hroom hvalue
  · split at h
    · cases h
    · next document hdocument =>
      cases h
      have hone : s.recordCount + (if IsRecord line then 1 else 0) = s.recordCount + 1 := by rw [if_pos hrecord]
      cases hknown : Key.ofName (key line) with
      | none =>
        have hother := ofName_none hknown
        rw [parseRecord, hknown] at hdocument
        cases hdocument
        exact
          { accepted := ⟨by omega, hnul, fun _ => hvalue, fun _ k hk => absurd hk (hother k)⟩
            room := fun _ => by omega
            source := rfl
            recordCount := hone.symm
            keeps := fun k v hv => hv
            assigns := fun k v hv => absurd hv.2.1 (hother k)
            from_line := fun k v hv => .inl hv
            tracks := fun k => by
              rw [mem_insert_iff, ← htracks k]
              exact ⟨fun hor => hor.resolve_left (hother k), .inr⟩ }
      | some k =>
        have hkey := ofName_eq_some.mp hknown
        rw [← hkey, parseRecord_ok_iff] at hdocument
        obtain ⟨v, hparse, hset⟩ := hdocument
        have hassigns : Assigns line k v := ⟨hrecord, hkey, hparse⟩
        have haccepted : Accepted line := by
          refine ⟨by omega, hnul, fun _ => hvalue, fun _ k' hk' => ?_⟩
          obtain rfl : k' = k := name_injective (hk'.trans hkey.symm)
          exact ⟨v, hassigns⟩
        have hget : document.get k = some v := by
          rcases hset with ⟨-, rfl⟩ | ⟨-, hsome, rfl⟩
          · exact get_set_self _ k v
          · exact hsome
        have hother {k' : Key} (hne : k' ≠ k) : document.get k' = s.document.get k' := by
          rcases hset with ⟨-, rfl⟩ | ⟨-, -, rfl⟩
          · exact get_set_of_ne _ hne v
          · rfl
        have hkeeps (k' : Key) (v' : k'.Value) (hv' : s.document.get k' = some v') : document.get k' = some v' := by
          by_cases hk' : k' = k
          · subst hk'
            rcases hset with ⟨hfirst, -⟩ | ⟨-, hsome, rfl⟩
            · rw [decide_eq_true_eq] at hfirst
              exact absurd ((htracks k').mpr ⟨v', hv'⟩) hfirst
            · exact hv'
          · rwa [hother hk']
        exact
          { accepted := haccepted
            room := fun _ => by omega
            source := by
              rcases hset with ⟨-, rfl⟩ | ⟨-, -, rfl⟩
              · exact source_set _ k v
              · rfl
            recordCount := hone.symm
            keeps := hkeeps
            assigns := fun k' v' hv' => by
              obtain rfl : k' = k := name_injective (hv'.2.1.trans hkey.symm)
              rw [hget, Except.ok.inj (hparse.symm.trans hv'.2.2)]
            from_line := fun k' v' hv' => by
              by_cases hk' : k' = k
              · subst hk'
                rw [hget] at hv'
                cases hv'
                exact .inr hassigns
              · rw [hother hk'] at hv'
                exact .inl hv'
            tracks := fun k' => by
              rw [mem_insert_iff]
              by_cases hk' : k' = k
              · subst hk'
                exact ⟨fun _ => ⟨v, hget⟩, fun _ => .inl hkey⟩
              · rw [hother hk', ← htracks k']
                exact ⟨fun hor => hor.resolve_left fun heq => hk' (name_injective (heq.trans hkey.symm)), .inr⟩ }
  · cases h
    exact
      { accepted := ⟨by omega, hnul, fun hr => absurd hr hrecord, fun hr => absurd hr hrecord⟩
        room := fun hr => absurd hr hrecord
        source := rfl
        recordCount := by rw [if_neg hrecord]; rfl
        keeps := fun k v hv => hv
        assigns := fun k v hv => absurd hv.1 hrecord
        from_line := fun k v hv => .inl hv
        tracks := htracks }

/-- A line that is accepted is taken when it agrees with what is there. -/
theorem parseLine_total {s : State} {line : Bytes} (htracks : Tracks s) (haccepted : Accepted line)
    (hroom : IsRecord line → s.recordCount < maxRecords)
    (hagrees : ∀ k v v', Assigns line k v → s.document.get k = some v' → v' = v) : ∃ t, parseLine s line = .ok t := by
  rw [parseLine, if_neg (by have := haccepted.length; omega), if_neg haccepted.nulFree]
  by_cases hrecord : IsRecord line
  · have hcount := hroom hrecord
    rw [if_neg (not_not_intro hrecord), if_neg (by omega), if_neg (haccepted.value hrecord)]
    cases hknown : Key.ofName (key line) with
    | none =>
      rw [parseRecord, hknown]
      exact ⟨_, rfl⟩
    | some k =>
      have hkey := ofName_eq_some.mp hknown
      obtain ⟨v, hassigns⟩ := haccepted.known hrecord k hkey
      rw [← hkey]
      by_cases hseen : k.name ∈ s.seen
      · obtain ⟨v', hget⟩ := (htracks k).mp hseen
        have hsame := hagrees k v v' hassigns hget
        subst hsame
        have hparsed : parseRecord s.document s.lineNumber (line.length - (fromValue line).length + 1) k.name (value line)
            false = .ok s.document := (parseRecord_ok_iff k).mpr ⟨v', hassigns.2.2, .inr ⟨rfl, hget, rfl⟩⟩
        simp only [hseen, not_true_eq_false, decide_false, hparsed]
        exact ⟨_, rfl⟩
      · have hparsed : parseRecord s.document s.lineNumber (line.length - (fromValue line).length + 1) k.name (value line)
            true = .ok (s.document.set k v) := (parseRecord_ok_iff k).mpr ⟨v, hassigns.2.2, .inl ⟨rfl, rfl⟩⟩
        simp only [hseen, not_false_eq_true, decide_true, hparsed]
        exact ⟨_, rfl⟩
  · rw [if_pos hrecord]
    exact ⟨_, rfl⟩

end Lines

section Runs

/-- What any number of lines leaves of the document. -/
structure ReadsAll (s : State) (ls : List Bytes) (t : State) : Prop where
  accepted : ∀ line ∈ ls, Accepted line
  source : t.document.source = s.document.source
  recordCount : t.recordCount = s.recordCount + ls.countP IsRecord
  room : s.recordCount ≤ maxRecords → t.recordCount ≤ maxRecords
  get_iff : ∀ k v, t.document.get k = some v ↔ s.document.get k = some v ∨ ∃ line ∈ ls, Assigns line k v

theorem foldlM_parseLine_ok {s t : State} {ls : List Bytes} (htracks : Tracks s) (h : ls.foldlM parseLine s = .ok t) :
    ReadsAll s ls t := by
  induction ls generalizing s with
  | nil =>
    cases h
    exact ⟨by simp, rfl, rfl, id, by simp⟩
  | cons line ls ih =>
    rw [List.foldlM_cons] at h
    obtain ⟨s', hline, hrest⟩ := except_bind_ok_iff.mp h
    have hreads := parseLine_ok htracks hline
    have hall := ih hreads.tracks hrest
    have hroom := hreads.room
    have hcount := hreads.recordCount
    exact
      { accepted := List.forall_mem_cons.mpr ⟨hreads.accepted, hall.accepted⟩
        source := hall.source.trans hreads.source
        recordCount := by
          rw [hall.recordCount, hcount, List.countP_cons]
          simp only [decide_eq_true_eq]
          omega
        room := fun hle => by
          apply hall.room
          rw [hcount]
          split_ifs with hrecord
          · exact hroom hrecord
          · exact hle
        get_iff := fun k v => by
          rw [hall.get_iff, List.exists_mem_cons_iff]
          constructor
          · rintro (hget | hlater)
            · exact (hreads.from_line k v hget).imp_right .inl
            · exact .inr (.inr hlater)
          · rintro (hget | hassigns | hlater)
            · exact .inl (hreads.keeps k v hget)
            · exact .inl (hreads.assigns k v hassigns)
            · exact .inr hlater }

/-- Lines that one document describes are all taken. -/
theorem foldlM_parseLine_total {s : State} {ls : List Bytes} (document : Document) (htracks : Tracks s)
    (haccepted : ∀ line ∈ ls, Accepted line) (hroom : s.recordCount + ls.countP IsRecord ≤ maxRecords)
    (hbefore : ∀ k v, s.document.get k = some v → document.get k = some v)
    (hlines : ∀ k v, ∀ line ∈ ls, Assigns line k v → document.get k = some v) :
    ∃ t, ls.foldlM parseLine s = .ok t := by
  induction ls generalizing s with
  | nil => exact ⟨s, rfl⟩
  | cons line ls ih =>
    rw [List.countP_cons] at hroom
    simp only [decide_eq_true_eq] at hroom
    obtain ⟨hhead, htail⟩ := List.forall_mem_cons.mp haccepted
    obtain ⟨s', hline⟩ : ∃ s', parseLine s line = .ok s' := by
      apply parseLine_total htracks hhead
      · intro hrecord
        rw [if_pos hrecord] at hroom
        omega
      · intro k v v' hassigns hget
        have hthere := hlines k v line List.mem_cons_self hassigns
        exact Option.some.inj ((hbefore k v' hget).symm.trans hthere)
    have hreads := parseLine_ok htracks hline
    have hcount := hreads.recordCount
    obtain ⟨t, hrest⟩ := ih hreads.tracks htail (by omega)
      (fun k v hget => (hreads.from_line k v hget).elim (hbefore k v) (hlines k v line List.mem_cons_self))
      fun k v line' hmem => hlines k v line' (List.mem_cons_of_mem _ hmem)
    exact ⟨t, by rw [List.foldlM_cons, hline]; exact hrest⟩

end Runs

section Documents

/-- A document that says of every known key what the lines say, whatever their order. -/
structure Describes (ls : List Bytes) (document : Document) : Prop where
  accepted : ∀ line ∈ ls, Accepted line
  records : ls.countP IsRecord ≤ maxRecords
  get_iff : ∀ k v, document.get k = some v ↔ ∃ line ∈ ls, Assigns line k v

theorem Describes.perm {ls other : List Bytes} {document : Document} (h : Describes ls document) (hperm : ls.Perm other) :
    Describes other document where
  accepted line hmem := h.accepted line (hperm.mem_iff.mpr hmem)
  records := hperm.countP_eq _ ▸ h.records
  get_iff k v := by
    rw [h.get_iff]
    exact exists_congr fun line => and_congr_left' hperm.mem_iff

private theorem tracks_empty (source : Bytes) : Tracks { document := { source } } := by
  intro k
  cases k <;> simp [Document.get]

private theorem get_empty (source : Bytes) (k : Key) : ({ source } : Document).get k = none := by
  cases k <;> rfl

/-- The parser takes the texts whose lines some document describes, and gives that document. -/
theorem parse_ok_iff {bytes source : Bytes} {document : Document} :
    parse bytes source = .ok document ↔
      bytes.length ≤ maxBytes ∧ document.source = source ∧ Describes (lines bytes) document := by
  have htracks := tracks_empty source
  constructor
  · intro h
    rw [parse] at h
    split_ifs at h with hlength
    split at h
    · cases h
    · next s hrun =>
      cases h
      have hreads := foldlM_parseLine_ok htracks hrun
      have hroom := hreads.room (Nat.zero_le _)
      have hcount := hreads.recordCount
      refine ⟨by omega, hreads.source, hreads.accepted, by simpa [hcount] using hroom, fun k v => ?_⟩
      rw [hreads.get_iff, get_empty]
      simp
  · rintro ⟨hlength, hsource, hdescribes⟩
    obtain ⟨t, hrun⟩ := foldlM_parseLine_total document htracks hdescribes.accepted
      (by simpa using hdescribes.records) (by simp [get_empty])
      fun k v line hmem hassigns => (hdescribes.get_iff k v).mpr ⟨line, hmem, hassigns⟩
    have hreads := foldlM_parseLine_ok htracks hrun
    have hsame : t.document = document := by
      apply Document.ext_get (hreads.source.trans hsource.symm)
      intro k v
      rw [hreads.get_iff, hdescribes.get_iff, get_empty]
      simp
    rw [parse, if_neg (by omega), hrun]
    exact congrArg Except.ok hsame

/-- The order of the lines does not matter, and every line that gives a known key a value gives the one reported. -/
theorem parse_perm {bytes other : Bytes} (source : Bytes) (hlength : bytes.length ≤ maxBytes)
    (hother : other.length ≤ maxBytes) (hperm : (lines bytes).Perm (lines other)) :
    (∀ document, parse bytes source = .ok document ↔ parse other source = .ok document) ∧
      ∀ document, parse bytes source = .ok document → ∀ line ∈ lines bytes, IsRecord line → ∀ k : Key, k.name = key line →
        ∃ v, k.parse (value line) = .ok v ∧ document.get k = some v := by
  constructor
  · intro document
    rw [parse_ok_iff, parse_ok_iff]
    exact ⟨fun h => ⟨hother, h.2.1, h.2.2.perm hperm⟩, fun h => ⟨hlength, h.2.1, h.2.2.perm hperm.symm⟩⟩
  · intro document h line hmem hrecord k hkey
    obtain ⟨-, -, hdescribes⟩ := parse_ok_iff.mp h
    obtain ⟨v, hassigns⟩ := (hdescribes.accepted line hmem).known hrecord k hkey
    exact ⟨v, hassigns.2.2, (hdescribes.get_iff k v).mpr ⟨line, hmem, hassigns⟩⟩

theorem parse_perm_swapped :
    (∀ document, parse (utf8 "UID_MIN 1000\nPASS_MAX_DAYS 90\n") (utf8 "login.defs") = .ok document ↔
        parse (utf8 "PASS_MAX_DAYS 90\nUID_MIN 1000") (utf8 "login.defs") = .ok document) ∧
      ∀ document, parse (utf8 "UID_MIN 1000\nPASS_MAX_DAYS 90\n") (utf8 "login.defs") = .ok document →
        ∀ line ∈ lines (utf8 "UID_MIN 1000\nPASS_MAX_DAYS 90\n"), IsRecord line → ∀ k : Key, k.name = key line →
          ∃ v, k.parse (value line) = .ok v ∧ document.get k = some v :=
  parse_perm (utf8 "login.defs") (by decide +kernel) (by decide +kernel) (by decide +kernel)

end Documents

end Kompli.LoginDefs
