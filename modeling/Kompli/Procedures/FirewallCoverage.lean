import Kompli.Foundation.Lines
import Kompli.Procedures.FirewallOpenPorts
import Mathlib.Data.List.Infix

/-! Whether a firewall that passes its audit covers the open ports. -/
namespace Kompli.FirewallOpenPorts
open Foundation Streams NetworkTools

/-- An audit that ends in `Compliant`. -/
def Passes (result : Except Error Indicator) : Prop := ∃ indicator, result = .ok indicator ∧ indicator.status = .compliant

section Iptables

variable {text : Bytes} {port : UInt16} {isFamily : Address → Bool} {openPorts : List OpenPort}

/-- A rule names a port: the number ends where the line does, or at a space. -/
def Named (text : Bytes) (port : UInt16) : Prop :=
  ∃ line ∈ lines text, ∃ before after, line = before ++ dpt port ++ after ∧ (after = [] ∨ after.head? = some 0x20)

instance (text : Bytes) (port : UInt16) : Decidable (Named text port) :=
  decidable_of_iff (∃ line ∈ lines text, ∃ rest ∈ line.tails, dpt port <+: rest ∧
      (rest.drop (dpt port).length = [] ∨ (rest.drop (dpt port).length).head? = some 0x20)) <| by
    refine exists_congr fun line => and_congr_right fun _ => ?_
    constructor
    · rintro ⟨rest, hrest, ⟨after, rfl⟩, hends⟩
      obtain ⟨before, rfl⟩ := (List.mem_tails _ _).mp hrest
      rw [List.drop_left] at hends
      exact ⟨before, after, (List.append_assoc _ _ _).symm, hends⟩
    · rintro ⟨before, after, rfl, hends⟩
      refine ⟨dpt port ++ after, (List.mem_tails _ _).mpr ⟨before, (List.append_assoc _ _ _).symm⟩, List.prefix_append _ _, ?_⟩
      rwa [List.drop_left]

/-- A port is in the rules, but everywhere as the beginning of something longer. -/
def OnlyBegins (text : Bytes) (port : UInt16) : Prop :=
  (∃ line ∈ lines text, dpt port <:+: line) ∧
    ∀ line ∈ lines text, ∀ before after, line = before ++ dpt port ++ after → ∃ c rest, after = c :: rest ∧ c ≠ 0x20

/-- Every port of a family that is open to others is named. -/
def Covers (isFamily : Address → Bool) (openPorts : List OpenPort) (text : Bytes) : Prop :=
  ∀ openPort ∈ openPorts, openPort.isLocal = false → isFamily openPort.address = true → Named text openPort.port

private theorem infix_cut {pattern : Bytes} (hne : pattern ≠ []) (hnewline : newline ∉ pattern) (line rest : Bytes) :
    pattern <:+: line ++ newline :: rest ↔ pattern <:+: line ∨ pattern <:+: rest := by
  induction line with
  | nil =>
    have hstart : ¬ pattern <+: newline :: rest := by
      obtain ⟨c, pattern, rfl⟩ := List.exists_cons_of_ne_nil hne
      rw [List.cons_prefix_cons]
      rintro ⟨rfl, -⟩
      exact hnewline List.mem_cons_self
    rw [List.nil_append, List.infix_cons_iff, or_iff_right hstart, List.infix_nil, or_iff_right hne]
  | cons c line ih =>
    have hstart : pattern <+: c :: line ++ newline :: rest ↔ pattern <+: c :: line := by
      constructor
      · intro h
        rcases List.prefix_or_prefix_of_prefix h (List.prefix_append (c :: line) (newline :: rest)) with hin | ⟨t, rfl⟩
        · exact hin
        · rw [List.prefix_append_right_inj] at h
          cases t with
          | nil => rw [List.append_nil]
          | cons d t =>
            obtain ⟨rfl, -⟩ := List.cons_prefix_cons.mp h
            exact absurd (by simp) hnewline
      · exact fun h => h.trans (List.prefix_append _ _)
    rw [List.cons_append] at hstart ⊢
    rw [List.infix_cons_iff, List.infix_cons_iff, hstart, ih, or_assoc]

/-- A pattern without a newline is in a text just where it is in a line. -/
theorem infix_iff_lines {pattern : Bytes} (hne : pattern ≠ []) (hnewline : newline ∉ pattern) :
    pattern <:+: text ↔ ∃ line ∈ lines text, pattern <:+: line := by
  induction text using lines_induction newline with
  | last line hline =>
    by_cases hnil : line = []
    · subst hnil
      simp [lines, hne]
    · rw [lines_of_not_mem hline hnil]
      simp
  | cons line rest hline ih =>
    rw [infix_cut hne hnewline, ih, lines_append hline]
    simp

theorem dpt_ne_nil (port : UInt16) : dpt port ≠ [] := List.append_ne_nil_of_left_ne_nil (by decide) _

theorem newline_not_mem_dpt (port : UInt16) : newline ∉ dpt port := by
  rw [dpt, List.mem_append, not_or]
  refine ⟨by decide, fun h => ?_⟩
  have hdigit := (Decimal.print_canonical port.toNat).digits newline h
  exact absurd hdigit (by decide)

/-- The audit passes where every port is somewhere in the text. -/
theorem passes_iff (command : Bytes) : Passes (auditTables isFamily command (.ok openPorts) fun _ => .ok text) ↔
    ∀ openPort ∈ openPorts, openPort.isLocal = false → isFamily openPort.address = true → dpt openPort.port <:+: text := by
  rw [auditTables]
  dsimp only
  cases hfind : openPorts.find? fun openPort =>
      ! openPort.isLocal && isFamily openPort.address && (cutAt (dpt openPort.port) text).isNone with
  | some openPort =>
    have hopen := List.find?_some hfind
    simp only [Bool.and_eq_true, Bool.not_eq_true', Option.isNone_iff_eq_none, cutAt_eq_none_iff] at hopen
    constructor
    · rintro ⟨indicator, hindicator, hstatus⟩
      cases hindicator
      cases hstatus
    · intro hall
      exact absurd (hall openPort (List.mem_of_find?_eq_some hfind) hopen.1.1 hopen.1.2) hopen.2
  | none =>
    refine ⟨fun _ openPort hmem hlocal hfamily => ?_, fun _ => ⟨_, rfl, rfl⟩⟩
    by_contra hnot
    have hnone := List.find?_eq_none.mp hfind openPort hmem
    simp [hlocal, hfamily, cutAt_eq_none_iff.mpr hnot] at hnone

theorem onlyBegins_iff : OnlyBegins text port ↔ dpt port <:+: text ∧ ¬ Named text port := by
  rw [OnlyBegins, infix_iff_lines (dpt_ne_nil port) (newline_not_mem_dpt port)]
  refine and_congr_right fun _ => ?_
  constructor
  · rintro h ⟨line, hline, before, after, heq, hends⟩
    obtain ⟨c, rest, rfl, hc⟩ := h line hline before after heq
    rcases hends with hnil | hspace
    · cases hnil
    · exact hc (Option.some.inj hspace)
  · intro h line hline before after heq
    cases after with
    | nil => exact absurd ⟨line, hline, before, [], heq, .inl rfl⟩ h
    | cons c rest =>
      refine ⟨c, rest, rfl, ?_⟩
      rintro rfl
      exact h ⟨line, hline, before, _, heq, .inr rfl⟩

private theorem coversCommand_iff (command : Bytes) :
    (Passes (auditTables isFamily command (.ok openPorts) fun _ => .ok text) → Covers isFamily openPorts text) ↔
      (∃ openPort ∈ openPorts, openPort.isLocal = false ∧ isFamily openPort.address = true ∧
        ¬ dpt openPort.port <:+: text) ∨
      ∀ openPort ∈ openPorts, openPort.isLocal = false → isFamily openPort.address = true →
        ¬ OnlyBegins text openPort.port := by
  simp only [passes_iff, onlyBegins_iff, not_and_not_right]
  constructor
  · intro h
    by_cases hall : ∀ openPort ∈ openPorts, openPort.isLocal = false → isFamily openPort.address = true →
        dpt openPort.port <:+: text
    · exact .inr fun openPort hmem hlocal hfamily _ => h hall openPort hmem hlocal hfamily
    · left
      push Not at hall
      exact hall
  · rintro (⟨openPort, hmem, hlocal, hfamily, hnot⟩ | h) hall
    · exact absurd (hall openPort hmem hlocal hfamily) hnot
    · exact fun openPort hmem hlocal hfamily => h openPort hmem hlocal hfamily (hall openPort hmem hlocal hfamily)

/-- What passes the audits covers the open ports just where some port is not in the text at all, or none is in it only as
the beginning of something longer. -/
theorem tables_cover_iff (openPorts : List OpenPort) (text : Bytes) :
    ((Passes (auditIptablesOpenPorts (.ok openPorts) fun _ => .ok text) → Covers isInet openPorts text) ↔
      (∃ openPort ∈ openPorts, openPort.isLocal = false ∧ isInet openPort.address = true ∧ ¬ dpt openPort.port <:+: text) ∨
        ∀ openPort ∈ openPorts, openPort.isLocal = false → isInet openPort.address = true →
          ¬ OnlyBegins text openPort.port) ∧
    ((Passes (auditIp6tablesOpenPorts (.ok openPorts) fun _ => .ok text) → Covers isInet6 openPorts text) ↔
      (∃ openPort ∈ openPorts, openPort.isLocal = false ∧ isInet6 openPort.address = true ∧ ¬ dpt openPort.port <:+: text) ∨
        ∀ openPort ∈ openPorts, openPort.isLocal = false → isInet6 openPort.address = true →
          ¬ OnlyBegins text openPort.port) :=
  ⟨coversCommand_iff _, coversCommand_iff _⟩

/-- A rule for port 8080 is taken for one of port 80. -/
theorem longer_port_covers :
    Passes (auditIptablesOpenPorts (.ok [{ type := .stream, port := 80, address := .inet [0, 0, 0, 0] }])
      fun _ => .ok (utf8 "ACCEPT tcp dpt:8080\n")) ∧
    ¬ Covers isInet [{ type := .stream, port := 80, address := .inet [0, 0, 0, 0] }] (utf8 "ACCEPT tcp dpt:8080\n") := by
  constructor
  · rw [auditIptablesOpenPorts, passes_iff]
    decide +kernel
  · intro h
    have hnamed := h _ List.mem_cons_self (by decide +kernel) rfl
    exact absurd hnamed (by decide +kernel)

end Iptables

section Ufw

variable {line : Bytes} {port : Int} {rules : List Bytes} {openPorts : List OpenPort}

/-- What the code takes for the last position is that of the end just for lines that are not three bytes long. -/
theorem isV6_iff (line : Bytes) :
    isV6 line = true ↔ (∃ before, cutAt v6 line = some (before, [])) ∨ cutAt v6 line = none ∧ line.length = 3 := by
  have hlength : v6.length = 4 := by decide
  rw [isV6, decide_eq_true_eq, lastPosition]
  cases hcut : cutAt v6 line with
  | none =>
    rw [Option.map_none]
    split_ifs with hlong hthree
    · simp
      omega
    · simp [hthree]
    · simp [hthree]
  | some pieces =>
    obtain ⟨before, after⟩ := pieces
    have htotal := length_cutAt hcut
    rw [hlength] at htotal
    rw [if_pos (by omega), Option.map_some, Option.some_inj]
    constructor
    · intro heq
      have hafter : after = [] := List.eq_nil_of_length_eq_zero (by dsimp only at heq; omega)
      exact .inl ⟨before, by rw [hafter]⟩
    · rintro (⟨_, hnil⟩ | ⟨hnone, -⟩)
      · cases hnil
        rw [List.length_nil] at htotal
        dsimp only
        omega
      · cases hnone

/-- A rule that ends as those of IPv6 do and has the mark before its end as well, or one of three bytes. -/
def Misread (line : Bytes) : Prop :=
  (v6 <:+ line ∧ ∃ before after, line = before ++ v6 ++ after ∧ after ≠ []) ∨ line.length = 3

/-- What is not misread is told apart by its end. -/
theorem isV6_right_iff (line : Bytes) : (isV6 line = true ↔ v6 <:+ line) ↔ ¬ Misread line := by
  have hlength : v6.length = 4 := by decide
  rw [isV6_iff, Misread, not_or]
  by_cases hends : v6 <:+ line
  · obtain ⟨front, rfl⟩ := hends
    have hthree : (front ++ v6).length ≠ 3 := by
      rw [List.length_append, hlength]
      omega
    have hsuffix : v6 <:+ front ++ v6 := List.suffix_append _ _
    simp only [hthree, and_false, or_false, hsuffix, iff_true, true_and, not_false_eq_true, and_true]
    constructor
    · rintro ⟨before, hcut⟩ ⟨other, after, heq, hafter⟩
      have hfirst := cutAt_first hcut (heq.trans (List.append_assoc _ _ _))
      have hlong := congrArg List.length (cutAt_some hcut)
      rw [heq] at hlong
      have hpos := List.length_pos_iff.mpr hafter
      simp only [List.length_append, List.length_nil] at hlong
      omega
    · intro hnone
      cases hcut : cutAt v6 (front ++ v6) with
      | none => exact absurd (List.infix_append' front v6 []) (by simpa using cutAt_eq_none_iff.mp hcut)
      | some pieces =>
        obtain ⟨before, after⟩ := pieces
        have heq := cutAt_some hcut
        refine ⟨before, ?_⟩
        by_cases hafter : after = []
        · rw [hafter]
        · exact absurd ⟨before, after, by rw [heq, List.append_assoc], hafter⟩ hnone
  · have hnot (before : Bytes) : cutAt v6 line ≠ some (before, []) := by
      intro hcut
      apply hends
      rw [cutAt_some hcut, List.append_nil]
      exact List.suffix_append _ _
    have hthree : cutAt v6 line = none ∧ line.length = 3 ↔ line.length = 3 := by
      refine and_iff_right_of_imp fun hthree => ?_
      cases hcut : cutAt v6 line with
      | none => rfl
      | some pieces =>
        have htotal := length_cutAt hcut
        omega
    simp only [hnot, exists_false, false_or, hthree, hends, iff_false, false_and, not_false_eq_true, true_and]

private theorem toInt16_eq_iff (openPort : UInt16) (hlow : 1 ≤ port) (hhigh : port ≤ 65535) :
    openPort.toInt16 = Int16.ofInt port ↔ port = openPort.toNat := by
  have hsize := openPort.toNat_lt
  rw [← Int16.toBitVec_inj, UInt16.toBitVec_toInt16, Int16.toBitVec_ofInt, ← BitVec.toNat_inj, BitVec.toNat_ofInt,
    UInt16.toNat_toBitVec]
  omega

theorem rulePort_range (h : rulePort line = some port) : 1 ≤ port ∧ port ≤ 65535 := by
  rw [rulePort] at h
  split_ifs at h with hskip
  obtain ⟨⟨first, rest⟩, -, h⟩ := Option.bind_eq_some_iff.mp h
  obtain ⟨⟨second, _⟩, -, h⟩ := Option.bind_eq_some_iff.mp h
  obtain ⟨read, -, h⟩ := Option.bind_eq_some_iff.mp h
  split_ifs at h with hrange
  cases h
  omega

/-- The sets hold the ports of the rules, told apart as the code does. -/
theorem mem_addRules (rules : List Bytes) (ports : RulePorts) (openPort : UInt16) :
    (openPort.toInt16 ∈ (rules.foldl addRule ports).v4ports ↔ openPort.toInt16 ∈ ports.v4ports ∨
      ∃ line ∈ rules, rulePort line = some (openPort.toNat : Int) ∧ isV6 line = false) ∧
    (openPort.toInt16 ∈ (rules.foldl addRule ports).v6ports ↔ openPort.toInt16 ∈ ports.v6ports ∨
      ∃ line ∈ rules, rulePort line = some (openPort.toNat : Int) ∧ isV6 line = true) := by
  induction rules generalizing ports with
  | nil => simp
  | cons line rules ih =>
    obtain ⟨ih4, ih6⟩ := ih (addRule ports line)
    rw [List.foldl_cons, ih4, ih6]
    simp only [List.exists_mem_cons_iff, addRule]
    cases hport : rulePort line with
    | none => simp
    | some port =>
      obtain ⟨hlow, hhigh⟩ := rulePort_range hport
      have hsame := toInt16_eq_iff openPort hlow hhigh
      cases hv6 : isV6 line with
      | true => simp [hsame, or_assoc, or_comm]
      | false => simp [hsame, or_assoc, or_comm]

/-- Each rule is told apart by its end, and every open port of what passes the audit has a rule of its family. -/
structure UfwRight (openPorts : List OpenPort) (text : Bytes) : Prop where
  attributed : ∀ rules, ruleLines text = .ok rules → ∀ line ∈ rules, rulePort line ≠ none →
    (isV6 line = true ↔ v6 <:+ line)
  covers : Passes (auditUfwOpenPorts (.ok openPorts) fun _ => .ok text) → ∃ rules, ruleLines text = .ok rules ∧
    ∀ openPort ∈ openPorts, openPort.isLocal = false → ∃ line ∈ rules,
      rulePort line = some (openPort.port.toNat : Int) ∧ (v6 <:+ line ↔ isInet6 openPort.address = true)

theorem ufw_passes {text : Bytes} (h : Passes (auditUfwOpenPorts (.ok openPorts) fun _ => .ok text)) :
    ∃ rules, ruleLines text = .ok rules ∧
      ∀ openPort ∈ openPorts, unlisted (rules.foldl addRule {}) openPort = none := by
  obtain ⟨indicator, hindicator, hstatus⟩ := h
  rw [auditUfwOpenPorts] at hindicator
  dsimp only at hindicator
  cases hrules : ruleLines text with
  | error message =>
    rw [hrules] at hindicator
    cases hindicator
    cases hstatus
  | ok rules =>
    rw [hrules] at hindicator
    dsimp only at hindicator
    cases hfind : openPorts.findSome? (unlisted (rules.foldl addRule {})) with
    | some message =>
      rw [hfind] at hindicator
      cases hindicator
      cases hstatus
    | none => exact ⟨rules, rfl, List.findSome?_eq_none_iff.mp hfind⟩

/-- A port that is not found wanting is in the set of its family. -/
theorem listed_of_unlisted {ports : RulePorts} {openPort : OpenPort} (hopen : openPort.isLocal = false)
    (h : unlisted ports openPort = none) :
    openPort.port.toInt16 ∈ if isInet6 openPort.address then ports.v6ports else ports.v4ports := by
  rw [unlisted, if_neg (by simp [hopen])] at h
  cases haddress : openPort.address with
  | inet ip4 =>
    rw [haddress] at h
    by_contra hmem
    simp [isInet6] at hmem
    simp [hmem] at h
  | inet6 ip6 =>
    rw [haddress] at h
    by_contra hmem
    simp [isInet6] at hmem
    simp [hmem] at h

/-- The rules are told apart by their ends, and what passes covers the open ports of both families, just where no rule
is misread. -/
theorem ufw_right_iff (openPorts : List OpenPort) (text : Bytes) :
    UfwRight openPorts text ↔
      ∀ rules, ruleLines text = .ok rules → ∀ line ∈ rules, rulePort line ≠ none → ¬ Misread line := by
  constructor
  · intro h rules hrules line hline hport
    exact (isV6_right_iff line).mp (h.attributed rules hrules line hline hport)
  · intro h
    have hattributed : ∀ rules, ruleLines text = .ok rules → ∀ line ∈ rules, rulePort line ≠ none →
        (isV6 line = true ↔ v6 <:+ line) := fun rules hrules line hline hport =>
      (isV6_right_iff line).mpr (h rules hrules line hline hport)
    refine ⟨hattributed, fun hpasses => ?_⟩
    obtain ⟨rules, hrules, hlisted⟩ := ufw_passes hpasses
    refine ⟨rules, hrules, fun openPort hmem hopen => ?_⟩
    have hset := listed_of_unlisted hopen (hlisted openPort hmem)
    obtain ⟨h4, h6⟩ := mem_addRules rules {} openPort.port
    cases hfamily : isInet6 openPort.address with
    | true =>
      rw [hfamily, if_pos rfl, h6] at hset
      obtain ⟨line, hline, hport, hv6⟩ := hset.resolve_left (List.not_mem_nil)
      have hends := hattributed rules hrules line hline (by simp [hport])
      exact ⟨line, hline, hport, by simp [← hends, hv6]⟩
    | false =>
      rw [hfamily, if_neg (by simp), h4] at hset
      obtain ⟨line, hline, hport, hv6⟩ := hset.resolve_left (List.not_mem_nil)
      have hends := hattributed rules hrules line hline (by simp [hport])
      exact ⟨line, hline, hport, by simp [← hends, hv6]⟩

/-- A rule of IPv6 as `ufw` prints it covers a port of IPv4. -/
theorem marked_twice_misread :
    Passes (auditUfwOpenPorts (.ok [{ type := .stream, port := 22, address := .inet [0, 0, 0, 0] }])
      fun _ => .ok (utf8 "Status: active\n--\n22/tcp (v6) ALLOW IN Anywhere (v6)\n")) ∧
    ruleLines (utf8 "Status: active\n--\n22/tcp (v6) ALLOW IN Anywhere (v6)\n") =
      .ok [utf8 "22/tcp (v6) ALLOW IN Anywhere (v6)"] ∧
    ¬ UfwRight [{ type := .stream, port := 22, address := .inet [0, 0, 0, 0] }]
      (utf8 "Status: active\n--\n22/tcp (v6) ALLOW IN Anywhere (v6)\n") := by
  have hrules : ruleLines (utf8 "Status: active\n--\n22/tcp (v6) ALLOW IN Anywhere (v6)\n") =
      .ok [utf8 "22/tcp (v6) ALLOW IN Anywhere (v6)"] := by rfl
  have hlisted : [({ type := .stream, port := 22, address := .inet [0, 0, 0, 0] } : OpenPort)].findSome?
      (unlisted ([utf8 "22/tcp (v6) ALLOW IN Anywhere (v6)"].foldl addRule {})) = none := by decide +kernel
  refine ⟨?_, hrules, fun h => ?_⟩
  · simp only [auditUfwOpenPorts, hrules, hlisted]
    exact ⟨_, rfl, rfl⟩
  · have hattributed := h.attributed _ hrules _ List.mem_cons_self (by decide +kernel)
    have hends : v6 <:+ utf8 "22/tcp (v6) ALLOW IN Anywhere (v6)" := by decide +kernel
    exact absurd (hattributed.mpr hends) (by decide +kernel)

end Ufw

end Kompli.FirewallOpenPorts
