import Kompli.ComplianceEngine.NetworkTools
import Kompli.Foundation.Lines
import Kompli.Foundation.Words
import Mathlib.Data.List.Forall2

/-! Which of the sockets that `ss` lists are found in its output. -/
namespace Kompli.NetworkTools
open Foundation Streams Words

section Addresses

variable {s src octets tmp curtok ip : Bytes}

/-- What an address of version 4 is written with, and how long it is. -/
theorem inetPton4From_some {value : Option Nat} (h : inetPton4From octets value s = some ip) :
    (∀ c ∈ s, digit c = true ∨ c = dot) ∧ ip.length = 4 := by
  induction s generalizing octets value with
  | nil =>
    refine ⟨by simp, ?_⟩
    cases value with
    | none => cases h
    | some n =>
      rw [inetPton4From] at h
      split_ifs at h with hlength
      cases h
      rw [List.length_append, hlength, List.length_singleton]
  | cons c s ih =>
    rw [inetPton4From.eq_def] at h
    dsimp only at h
    by_cases hdigit : digit c = true
    · rw [if_pos hdigit] at h
      split_ifs at h with hfull
      obtain ⟨hs, hlength⟩ := ih h
      exact ⟨List.forall_mem_cons.mpr ⟨.inl hdigit, hs⟩, hlength⟩
    · rw [if_neg hdigit] at h
      cases value with
      | none => cases h
      | some n =>
        dsimp only at h
        split_ifs at h with hdot
        obtain ⟨hs, hlength⟩ := ih h
        exact ⟨List.forall_mem_cons.mpr ⟨.inr hdot.1, hs⟩, hlength⟩

/-- What an address is written with. -/
def AddressByte (c : UInt8) : Prop := (hexDigitValue c).isSome ∨ c = colon ∨ c = dot

theorem addressByte_of_inetPton4 (h : inetPton4 s = some ip) : ∀ c ∈ s, AddressByte c := by
  intro c hc
  rcases (inetPton4From_some h).1 c hc with hdigit | hdot
  · exact .inl (by rw [hexDigitValue, if_pos hdigit]; rfl)
  · exact .inr (.inr hdot)

theorem inetPton6From_some {colonp : Option Nat} {group : Option (Nat × Nat)} (hsuffix : src <:+ curtok)
    (h : inetPton6From tmp colonp curtok group src = some ip) : ∀ c ∈ src, AddressByte c := by
  induction src generalizing tmp colonp curtok group with
  | nil => simp
  | cons c src ih =>
    have htail : src <:+ curtok := (List.suffix_cons c src).trans hsuffix
    rw [List.forall_mem_cons]
    rw [inetPton6From.eq_def] at h
    dsimp only at h
    cases hhex : hexDigitValue c with
    | some d =>
      rw [hhex] at h
      dsimp only at h
      split_ifs at h with hfull
      exact ⟨.inl (by rw [hhex]; rfl), ih htail h⟩
    | none =>
      rw [hhex] at h
      dsimp only at h
      by_cases hcolon : c = colon
      · rw [if_pos hcolon] at h
        refine ⟨.inr (.inl hcolon), ?_⟩
        cases group with
        | none =>
          dsimp only at h
          split_ifs at h
          exact ih List.suffix_rfl h
        | some group =>
          dsimp only at h
          split_ifs at h
          exact ih List.suffix_rfl h
      · rw [if_neg hcolon] at h
        split_ifs at h with hdot
        refine ⟨.inr (.inr hdot.1), ?_⟩
        cases hoctets : inetPton4 curtok with
        | none =>
          rw [hoctets] at h
          cases h
        | some octets => exact fun d hd => addressByte_of_inetPton4 hoctets d (htail.subset hd)

theorem addressByte_of_inetPton6 (h : inetPton6 s = some ip) : ∀ c ∈ s, AddressByte c := by
  cases s with
  | nil => simp
  | cons c src =>
    rw [inetPton6] at h
    split_ifs at h with hcolon
    · exact List.forall_mem_cons.mpr ⟨.inr (.inl hcolon), inetPton6From_some List.suffix_rfl h⟩
    · exact inetPton6From_some List.suffix_rfl h

/-- Without a colon there are not enough bytes for an address of version 6. -/
theorem inetPton6From_none {group : Option (Nat × Nat)} (hcolon : colon ∉ src) :
    inetPton6From [] none curtok group src = none := by
  induction src generalizing group with
  | nil => cases group <;> rfl
  | cons c src ih =>
    rw [List.mem_cons, not_or] at hcolon
    rw [inetPton6From.eq_def]
    dsimp only
    cases hexDigitValue c with
    | some d =>
      dsimp only
      split_ifs
      · rfl
      · exact ih hcolon.2
    | none =>
      dsimp only
      rw [if_neg (Ne.symm hcolon.1)]
      split_ifs
      · cases hoctets : inetPton4 curtok with
        | none => rfl
        | some octets =>
          have hlength := (inetPton4From_some hoctets).2
          simp [expandColons, hlength]
      · rfl

theorem inetPton4_of_inetPton6 (h : inetPton6 s = some ip) : inetPton4 s = none := by
  rw [Option.eq_none_iff_forall_ne_some]
  intro ip4 h4
  have hcolon : colon ∉ s := by
    intro hmem
    rcases (inetPton4From_some h4).1 colon hmem with hdigit | hdot
    · exact absurd hdigit (by decide)
    · exact absurd hdot (by decide)
  cases s with
  | nil => cases h
  | cons c src =>
    have hc : c ≠ colon := by
      rintro rfl
      exact hcolon List.mem_cons_self
    rw [inetPton6, if_neg hc, inetPton6From_none hcolon] at h
    cases h

end Addresses

section Sockets

/-- An address as it is printed. -/
inductive SocketAddress where
  | inet (text ip4 : Bytes) (read : inetPton4 text = some ip4)
  | inet6 (text ip6 : Bytes) (read : inetPton6 text = some ip6)
  | any

def SocketAddress.text : SocketAddress → Bytes
  | .inet text _ _ => text
  | .inet6 text _ _ => 0x5B :: text ++ [0x5D]
  | .any => [asterisk]

def SocketAddress.address : SocketAddress → Address
  | .inet _ ip4 _ => .inet ip4
  | .inet6 _ ip6 _ => .inet6 ip6
  | .any => .inet [0, 0, 0, 0]

/-- A socket that is listed; `process` are the words of the last column. -/
structure Socket where
  type : SocketType
  state : Bytes
  recvq : Nat
  sendq : Nat
  address : SocketAddress
  interface : Option Bytes
  port : UInt16
  peer : Bytes
  process : List Bytes

def netid : SocketType → Bytes
  | .stream => utf8 "tcp"
  | .dgram => utf8 "udp"

def atInterface : Option Bytes → Bytes
  | none => []
  | some interface => percent :: interface

def Socket.localColumn (socket : Socket) : Bytes :=
  socket.address.text ++ atInterface socket.interface ++ colon :: printUnsigned socket.port.toNat

def Socket.columns (socket : Socket) : List Bytes :=
  netid socket.type :: socket.state :: printUnsigned socket.recvq :: printUnsigned socket.sendq :: socket.localColumn ::
    socket.peer :: socket.process

/-- The entry that it is to have. -/
def Socket.openPort (socket : Socket) : OpenPort where
  type := socket.type
  port := socket.port
  address := socket.address.address
  interface := socket.interface.getD []

/-- An address of version 4, or none with an interface. -/
def SocketAddress.Plain : SocketAddress → Option Bytes → Prop
  | .inet _ _ _, _ => True
  | .inet6 _ _ _, interface => interface = none
  | .any, interface => interface = none

/-- A header, and a line for each socket. -/
def Lists (output : Bytes) (sockets : List Socket) : Prop :=
  ∃ header socketLines, lines output = header :: socketLines ∧ (words blank header).head? = some (utf8 "Netid") ∧
    List.Forall₂ (fun (socket : Socket) line => words blank line = socket.columns) sockets socketLines

variable {ip text line : Bytes} {interface : Option Bytes} {socket : Socket}

instance (c : UInt8) : Decidable (AddressByte c) := inferInstanceAs (Decidable (_ ∨ _))

private theorem pton_none {c : UInt8} (hmem : c ∈ text) (hc : ¬ AddressByte c) :
    inetPton4 text = none ∧ inetPton6 text = none := by
  rw [Option.eq_none_iff_forall_ne_some, Option.eq_none_iff_forall_ne_some]
  exact ⟨fun ip4 h4 => hc (addressByte_of_inetPton4 h4 c hmem), fun ip6 h6 => hc (addressByte_of_inetPton6 h6 c hmem)⟩

/-- What is read in front of an interface. -/
private theorem addressOf_cut (hstar : ip ≠ utf8 "*") (hstrip : stripBrackets ip = text ++ atInterface interface)
    (hpercent : percent ∉ text) (hnul : 0 ∉ text) :
    addressOf ip = match inetPton4 text, inetPton6 text with
      | some ip4, _ => some (.inet ip4, interface.getD [])
      | none, some ip6 => some (.inet6 ip6, interface.getD [])
      | none, none => none := by
  rw [addressOf, if_neg hstar, hstrip]
  cases interface with
  | none =>
    have hall : ∀ c ∈ text, decide (c ≠ percent) = true := by
      intro c hc
      rw [decide_eq_true_eq]
      rintro rfl
      exact hpercent hc
    rw [atInterface, List.append_nil, List.takeWhile_eq_self_iff.mpr hall, List.dropWhile_eq_nil_iff.mpr hall,
      cString_of_nulFree hnul]
    rfl
  | some interface =>
    rw [atInterface, takeWhile_cut hpercent, dropWhile_cut hpercent, cString_of_nulFree hnul]
    rfl

private theorem not_mem_of_byte {c : UInt8} (htext : ∀ c ∈ text, AddressByte c) (hc : ¬ AddressByte c) : c ∉ text :=
  fun hmem => hc (htext c hmem)

private theorem stripBrackets_of_head {c : UInt8} (hc : c ≠ 0x5B) (s : Bytes) : stripBrackets (c :: s) = c :: s := by
  rw [stripBrackets, if_neg]
  rintro ⟨-, hhead, -⟩
  exact hc (Option.some.inj hhead)

private theorem stripBrackets_brackets (s : Bytes) : stripBrackets (0x5B :: s ++ [0x5D]) = s := by
  rw [stripBrackets, if_pos]
  · rw [List.cons_append, List.drop_one, List.tail_cons, List.dropLast_concat]
  · refine ⟨by simp, rfl, by rw [List.getLast?_concat]⟩

theorem addressOf_inet {ip4 : Bytes} (h : inetPton4 text = some ip4) (interface : Option Bytes) :
    addressOf (text ++ atInterface interface) = some (.inet ip4, interface.getD []) := by
  have hbytes := addressByte_of_inetPton4 h
  cases htext : text with
  | nil =>
    rw [htext] at h
    cases h
  | cons c s =>
    have hc : AddressByte c := hbytes c (by rw [htext]; exact List.mem_cons_self)
    have hstrip : stripBrackets (text ++ atInterface interface) = text ++ atInterface interface := by
      rw [htext, List.cons_append]
      apply stripBrackets_of_head
      rintro rfl
      exact absurd hc (by decide)
    have hstar : text ++ atInterface interface ≠ utf8 "*" := by
      rw [htext, List.cons_append]
      intro heq
      obtain rfl : c = asterisk := (List.cons.inj heq).1
      exact absurd hc (by decide)
    rw [← htext, addressOf_cut hstar hstrip (not_mem_of_byte hbytes (by decide)) (not_mem_of_byte hbytes (by decide)), h]

theorem addressOf_inet6 {ip6 : Bytes} (h : inetPton6 text = some ip6) :
    addressOf (0x5B :: text ++ [0x5D]) = some (.inet6 ip6, []) := by
  have hbytes := addressByte_of_inetPton6 h
  have hstar : 0x5B :: text ++ [0x5D] ≠ utf8 "*" := fun heq => absurd (List.cons.inj heq).1 (by decide)
  have hstrip : stripBrackets (0x5B :: text ++ [0x5D]) = text ++ atInterface none := by
    rw [stripBrackets_brackets, atInterface, List.append_nil]
  rw [addressOf_cut hstar hstrip (not_mem_of_byte hbytes (by decide)) (not_mem_of_byte hbytes (by decide)),
    inetPton4_of_inetPton6 h, h]
  rfl

/-- With an interface after it an address in brackets keeps one of them. -/
theorem addressOf_inet6_interface {ip6 : Bytes} (h : inetPton6 text = some ip6) (interface : Bytes) :
    addressOf (0x5B :: text ++ [0x5D] ++ atInterface (some interface)) = none := by
  have hbytes := addressByte_of_inetPton6 h
  have hpercent : percent ∉ text := not_mem_of_byte hbytes (by decide)
  have hnul : 0 ∉ text := not_mem_of_byte hbytes (by decide)
  have hstar : 0x5B :: text ++ [0x5D] ++ atInterface (some interface) ≠ utf8 "*" :=
    fun heq => absurd (List.cons.inj heq).1 (by decide)
  have hclosing : (0x5D : UInt8) ∈ text ++ [0x5D] := by simp
  have hopening : (0x5B : UInt8) ∈ 0x5B :: text ++ [0x5D] := by simp
  rcases List.eq_nil_or_concat' interface with rfl | ⟨interface, c, rfl⟩
  · have hstrip : stripBrackets (0x5B :: text ++ [0x5D] ++ atInterface (some [])) =
        0x5B :: text ++ [0x5D] ++ atInterface (some []) := by
      rw [stripBrackets, if_neg]
      rintro ⟨-, -, hlast⟩
      rw [atInterface, List.getLast?_concat] at hlast
      exact absurd (Option.some.inj hlast) (by decide)
    obtain ⟨h4, h6⟩ := pton_none hopening (by decide)
    rw [addressOf_cut hstar hstrip (by simp [hpercent]; decide) (by simp [hnul]), h4, h6]
  · by_cases hc : c = 0x5D
    · subst hc
      have hstrip : stripBrackets (0x5B :: text ++ [0x5D] ++ atInterface (some (interface ++ [0x5D]))) =
          text ++ [0x5D] ++ atInterface (some interface) := by
        have hshape : 0x5B :: text ++ [0x5D] ++ atInterface (some (interface ++ [0x5D])) =
            0x5B :: (text ++ [0x5D] ++ atInterface (some interface)) ++ [0x5D] := by simp [atInterface]
        rw [hshape, stripBrackets_brackets]
      obtain ⟨h4, h6⟩ := pton_none hclosing (by decide)
      rw [addressOf_cut hstar hstrip (by simp [hpercent]; decide) (by simp [hnul]), h4, h6]
    · have hstrip : stripBrackets (0x5B :: text ++ [0x5D] ++ atInterface (some (interface ++ [c]))) =
          0x5B :: text ++ [0x5D] ++ atInterface (some (interface ++ [c])) := by
        rw [stripBrackets, if_neg]
        rintro ⟨-, -, hlast⟩
        rw [atInterface, ← List.cons_append, ← List.append_assoc, List.getLast?_concat] at hlast
        exact hc (Option.some.inj hlast)
      obtain ⟨h4, h6⟩ := pton_none hopening (by decide)
      rw [addressOf_cut hstar hstrip (by simp [hpercent]; decide) (by simp [hnul]), h4, h6]

/-- An asterisk is replaced only where nothing is after it. -/
theorem addressOf_any (interface : Option Bytes) :
    addressOf ([asterisk] ++ atInterface interface) = if interface = none then some (.inet [0, 0, 0, 0], []) else none := by
  cases interface with
  | none => decide
  | some interface =>
    have hstar : [asterisk] ++ atInterface (some interface) ≠ utf8 "*" := fun heq => by
      have htail := (List.cons.inj heq).2
      cases htail
    have hmem : asterisk ∈ [asterisk] := List.mem_cons_self
    obtain ⟨h4, h6⟩ := pton_none hmem (by decide)
    have hstrip : stripBrackets ([asterisk] ++ atInterface (some interface)) = [asterisk] ++ atInterface (some interface) :=
      stripBrackets_of_head (by decide) _
    rw [addressOf_cut hstar hstrip (by decide) (by decide), h4, h6, if_neg (by simp)]

instance (address : SocketAddress) (interface : Option Bytes) : Decidable (address.Plain interface) := by
  cases address with
  | inet _ _ _ => exact inferInstanceAs (Decidable True)
  | inet6 _ _ _ => exact inferInstanceAs (Decidable (interface = none))
  | any => exact inferInstanceAs (Decidable (interface = none))

theorem addressOf_socket (address : SocketAddress) (interface : Option Bytes) :
    addressOf (address.text ++ atInterface interface) =
      if address.Plain interface then some (address.address, interface.getD []) else none := by
  cases address with
  | inet text ip4 h => exact addressOf_inet h interface
  | inet6 text ip6 h =>
    cases interface with
    | none =>
      rw [SocketAddress.text, atInterface, List.append_nil]
      exact addressOf_inet6 h
    | some interface => exact addressOf_inet6_interface h interface
  | any =>
    rw [SocketAddress.text, addressOf_any]
    cases interface <;> rfl

/-- The columns that are asked for are there, and the address can be read. -/
def Socket.Found (socket : Socket) : Prop := socket.process ≠ [] ∧ socket.address.Plain socket.interface

instance (socket : Socket) : Decidable socket.Found := inferInstanceAs (Decidable (_ ∧ _))

private theorem socketType_netid (type : SocketType) : socketType (netid type) = some type := by
  cases type <;> decide

private theorem signed_port (port : UInt16) :
    signed 32 (printUnsigned port.toNat) = some ((port.toNat : Int), []) := by
  have hsize := port.toNat_lt
  have hprint : printSigned (port.toNat : Int) = printUnsigned port.toNat := by
    rw [printSigned, if_neg (by omega), Int.natAbs_natCast]
  have hread := @signed_print 32 (port.toNat : Int) (by omega) (by omega) [] (by simp [Stops])
  rwa [hprint, List.append_nil] at hread

private theorem cutLast_localColumn (socket : Socket) : cutLast colon socket.localColumn =
    some (socket.address.text ++ atInterface socket.interface, printUnsigned socket.port.toNat) := by
  apply cutLast_append
  intro hmem
  have hdigit := (Decimal.print_canonical socket.port.toNat).digits colon hmem
  exact absurd hdigit (by decide)

/-- A line with these columns starts with none of the bytes that make it skipped. -/
private theorem not_skipped (hnewline : newline ∉ line) (h : words blank line = socket.columns) :
    ¬ (line = [] ∨ line.head? = some newline ∨ line.head? = some 0x23) := by
  obtain ⟨rest, hword, -⟩ := word_of_words h
  rintro (rfl | hhead | hhead)
  · rw [words_nil] at h
    cases h
  · exact hnewline (List.mem_of_mem_head? hhead)
  · obtain ⟨s, rfl⟩ := List.head?_eq_some_iff.mp hhead
    have hnetid : (netid socket.type).head? = some 0x23 := by
      rw [word, List.dropWhile_cons_of_neg (by decide), List.takeWhile_cons_of_pos (by decide), if_neg (by simp)] at hword
      rw [← (Prod.mk.inj (Option.some.inj hword)).1]
      rfl
    cases htype : socket.type <;> rw [htype] at hnetid <;> exact absurd hnetid (by decide)

/-- What is found of a line that stands for a socket. -/
theorem openPortOf_columns (hnewline : newline ∉ line) (h : words blank line = socket.columns) :
    openPortOf line = if socket.Found then some socket.openPort else none := by
  obtain ⟨rest1, hnetid, h1⟩ := word_of_words h
  obtain ⟨rest2, hstate, h2⟩ := word_of_words h1
  obtain ⟨rest3, hrecvq, h3⟩ := word_of_words h2
  obtain ⟨rest4, hsendq, h4⟩ := word_of_words h3
  obtain ⟨rest5, hlocal, h5⟩ := word_of_words h4
  obtain ⟨rest6, hpeer, h6⟩ := word_of_words h5
  simp only [openPortOf, if_neg (not_skipped hnewline h), hnetid, hstate, hrecvq, hsendq, hlocal, hpeer,
    Option.bind_eq_bind, Option.bind_some]
  by_cases hprocess : socket.process = []
  · rw [word_none (h6.trans hprocess), Option.bind_none, if_neg]
    exact fun hfound => hfound.1 hprocess
  · obtain ⟨first, others, hothers⟩ := List.exists_cons_of_ne_nil hprocess
    obtain ⟨rest7, hseventh, -⟩ := word_of_words (h6.trans hothers)
    have hport : UInt16.ofInt (socket.port.toNat : Int) = socket.port := by
      have hsize := socket.port.toNat_lt
      have hvalue : ((socket.port.toNat : Int) % 2 ^ 16).toNat = socket.port.toNat := by omega
      rw [UInt16.ofInt, hvalue, UInt16.ofNat_toNat]
    simp only [hseventh, Option.bind_some, socketType_netid, cutLast_localColumn, signed_port, addressOf_socket, hport]
    by_cases hplain : socket.address.Plain socket.interface
    · rw [if_pos hplain, if_pos ⟨hprocess, hplain⟩]
      rfl
    · rw [if_neg hplain, if_neg fun hfound => hplain hfound.2]
      rfl

/-- The header is no socket. -/
theorem openPortOf_header (h : (words blank line).head? = some (utf8 "Netid")) : openPortOf line = none := by
  obtain ⟨others, hwords⟩ := List.head?_eq_some_iff.mp h
  obtain ⟨rest, hword, -⟩ := word_of_words hwords
  rw [Option.eq_none_iff_forall_ne_some]
  intro openPort hopen
  rw [openPortOf] at hopen
  split_ifs at hopen
  simp only [hword, Option.bind_eq_bind, Option.bind_some, Option.bind_eq_some_iff] at hopen
  obtain ⟨-, -, -, -, -, -, -, -, -, -, -, -, type, htype, -⟩ := hopen
  have hnone : socketType (utf8 "Netid") = none := by decide
  rw [hnone] at htype
  cases htype

private theorem filterMap_lines {sockets : List Socket} {socketLines : List Bytes}
    (hnewline : ∀ line ∈ socketLines, newline ∉ line)
    (h : List.Forall₂ (fun (socket : Socket) line => words blank line = socket.columns) sockets socketLines) :
    socketLines.filterMap openPortOf = (sockets.filter fun socket => socket.Found).map Socket.openPort := by
  induction h with
  | nil => rfl
  | @cons socket line sockets socketLines hcolumns _ ih =>
    rw [List.forall_mem_cons] at hnewline
    have hline := openPortOf_columns hnewline.1 hcolumns
    by_cases hfound : socket.Found
    · rw [if_pos hfound] at hline
      rw [List.filterMap_cons_some hline, List.filter_cons_of_pos (by simpa using hfound), List.map_cons, ih hnewline.2]
    · rw [if_neg hfound] at hline
      rw [List.filterMap_cons_none hline, List.filter_cons_of_neg (by simpa using hfound), ih hnewline.2]

/-- Each socket has its entry, and there are no others, just where all of them have a process and a plain address. -/
theorem getOpenPorts_complete_iff {output : Bytes} {sockets : List Socket} (h : Lists output sockets) :
    getOpenPorts (fun _ => .ok output) = .ok (sockets.map Socket.openPort) ↔
      ∀ socket ∈ sockets, socket.Found := by
  obtain ⟨header, socketLines, hlines, hheader, hsockets⟩ := h
  have hnewline : ∀ line ∈ socketLines, newline ∉ line := fun line hline =>
    not_mem_of_mem_splitOn (mem_lines (hlines ▸ List.mem_cons_of_mem _ hline))
  have hread : getOpenPorts (fun _ => .ok output) =
      .ok ((sockets.filter fun socket => socket.Found).map Socket.openPort) := by
    simp only [getOpenPorts, hlines]
    rw [List.filterMap_cons_none (openPortOf_header hheader), filterMap_lines hnewline hsockets]
  rw [hread, Except.ok.injEq]
  constructor
  · intro hall
    have hlength := congrArg List.length hall
    rw [List.length_map, List.length_map] at hlength
    intro socket hsocket
    have hfound := List.length_filter_eq_length_iff.mp hlength socket hsocket
    exact of_decide_eq_true hfound
  · intro hall
    rw [List.filter_eq_self.mpr fun socket hsocket => decide_eq_true (hall socket hsocket)]

/-- A daemon that listens on the loopback interface. -/
def sshd (process : List Bytes) : Socket where
  type := .stream
  state := utf8 "LISTEN"
  recvq := 0
  sendq := 128
  address := .inet (utf8 "127.0.0.1") [127, 0, 0, 1] (by decide)
  interface := some (utf8 "lo")
  port := 22
  peer := utf8 "0.0.0.0:*"
  process

theorem sshd_found :
    getOpenPorts (fun _ => .ok (utf8 "Netid State\ntcp LISTEN 0 128 127.0.0.1%lo:22 0.0.0.0:* users\n")) =
      .ok ([sshd [utf8 "users"]].map Socket.openPort) := by
  have hlists : Lists (utf8 "Netid State\ntcp LISTEN 0 128 127.0.0.1%lo:22 0.0.0.0:* users\n") [sshd [utf8 "users"]] :=
    ⟨_, _, rfl, by decide +kernel, .cons (by decide +kernel) .nil⟩
  refine (getOpenPorts_complete_iff hlists).mpr ?_
  rintro socket (_ | _)
  · exact ⟨by decide, trivial⟩
  · contradiction

/-- A line without a process is no socket for the code, and neither is one with an interface after an asterisk. -/
theorem sockets_lost :
    Lists (utf8 "Netid State\ntcp LISTEN 0 128 127.0.0.1%lo:22 0.0.0.0:*\n") [sshd []] ∧
    getOpenPorts (fun _ => .ok (utf8 "Netid State\ntcp LISTEN 0 128 127.0.0.1%lo:22 0.0.0.0:*\n")) = .ok [] ∧
    getOpenPorts (fun _ => .ok (utf8 "Netid State\ntcp LISTEN 0 128 *%eth0:22 0.0.0.0:* users\n")) = .ok [] := by
  refine ⟨⟨_, _, rfl, by decide +kernel, .cons (by decide +kernel) .nil⟩, ?_, ?_⟩ <;> rfl

end Sockets

end Kompli.NetworkTools
