import Kompli.Cli.JUnitReport
import Kompli.Parson.Text

/-! The check of characters against the characters that XML 1.0 allows. -/
namespace Kompli.Cli
open Parson Ascii

/-- A character that XML 1.0 allows. -/
def IsXmlCharacter (c : Char) : Prop :=
  c.toNat = 0x09 ∨ c.toNat = 0x0A ∨ c.toNat = 0x0D ∨ (0x20 ≤ c.toNat ∧ c.toNat ≤ 0xD7FF) ∨
    (0xE000 ≤ c.toNat ∧ c.toNat ≤ 0xFFFD) ∨ (0x10000 ≤ c.toNat ∧ c.toNat ≤ 0x10FFFF)

section Bytes

private theorem isCont_iff (c : UInt8) : isCont c = true ↔ 0x80 ≤ c.toNat ∧ c.toNat < 0xC0 :=
  forall_byte (P := fun c => isCont c = true ↔ 0x80 ≤ c.toNat ∧ c.toNat < 0xC0) (by decide +kernel) c

private theorem low_bits (c : UInt8) : (c &&& 0x3F).toNat = c.toNat % 64 ∧ (c &&& 0x1F).toNat = c.toNat % 32 ∧
    (c &&& 0x0F).toNat = c.toNat % 16 ∧ (c &&& 0x07).toNat = c.toNat % 8 :=
  forall_byte (P := fun c => (c &&& 0x3F).toNat = c.toNat % 64 ∧ (c &&& 0x1F).toNat = c.toNat % 32 ∧
    (c &&& 0x0F).toNat = c.toNat % 16 ∧ (c &&& 0x07).toNat = c.toNat % 8) (by decide +kernel) c

private theorem isXmlChar_iff {length codePoint : Nat} :
    isXmlChar length codePoint = true ↔
      (1 < length → 0x80 ≤ codePoint) ∧ (2 < length → 0x800 ≤ codePoint) ∧ (3 < length → 0x10000 ≤ codePoint) ∧
        (codePoint = 0x09 ∨ codePoint = 0x0A ∨ codePoint = 0x0D ∨ (0x20 ≤ codePoint ∧ codePoint ≤ 0xD7FF) ∨
          (0xE000 ≤ codePoint ∧ codePoint ≤ 0xFFFD) ∨ (0x10000 ≤ codePoint ∧ codePoint ≤ 0x10FFFF)) := by
  simp only [isXmlChar, validCodePoint, Bool.and_eq_true, Bool.not_eq_true', Bool.or_eq_false_iff,
    Bool.and_eq_false_iff, Bool.or_eq_true, decide_eq_true_eq, decide_eq_false_iff_not]
  omega

end Bytes

section Encoding

/-- The code point that is left of the first byte of a sequence and of those that go on with it. -/
def codePoint (first : Nat) (conts : List UInt8) : Nat := conts.foldl (fun cp c => cp * 64 + c.toNat % 64) first

/-- The check with its bounds as numbers. -/
private theorem hasValid_cons (a : UInt8) (xml : Bytes) :
    hasValidXmlCharacters (a :: xml) =
      if a.toNat < 0x80 then isXmlChar 1 a.toNat && hasValidXmlCharacters xml
      else if 0xC2 ≤ a.toNat ∧ a.toNat ≤ 0xDF then
        match xml with
        | c₁ :: xml => isCont c₁ && isXmlChar 2 (codePoint (a.toNat % 32) [c₁]) && hasValidXmlCharacters xml
        | _ => false
      else if 0xE0 ≤ a.toNat ∧ a.toNat ≤ 0xEF then
        match xml with
        | c₁ :: c₂ :: xml => isCont c₁ && isCont c₂ && isXmlChar 3 (codePoint (a.toNat % 16) [c₁, c₂]) &&
            hasValidXmlCharacters xml
        | _ => false
      else if 0xF0 ≤ a.toNat ∧ a.toNat ≤ 0xF4 then
        match xml with
        | c₁ :: c₂ :: c₃ :: xml => isCont c₁ && isCont c₂ && isCont c₃ &&
            isXmlChar 4 (codePoint (a.toNat % 8) [c₁, c₂, c₃]) && hasValidXmlCharacters xml
        | _ => false
      else false := by
  rw [hasValidXmlCharacters.eq_def]
  simp only [UInt8.lt_iff_toNat_lt, UInt8.le_iff_toNat_le, addCont, (low_bits _).1, (low_bits a).2.1,
    (low_bits a).2.2.1, (low_bits a).2.2.2, codePoint, List.foldl_cons, List.foldl_nil]
  rfl

private theorem ofNat_toNat_of_lt {n : Nat} (h : n < 256) : (UInt8.ofNat n).toNat = n := by
  rw [UInt8.toNat_ofNat', Nat.mod_eq_of_lt h]

/-- What is checked of the bytes of a character is that XML allows it. -/
private theorem hasValid_encode {c : Char} (hc : IsXmlCharacter c) (xml : Bytes) :
    hasValidXmlCharacters (String.utf8EncodeChar c ++ xml) = hasValidXmlCharacters xml := by
  have hv : c.val.toNat = c.toNat := rfl
  rw [IsXmlCharacter] at hc
  rw [String.utf8EncodeChar, hv]
  generalize c.toNat = v at hc
  split_ifs with h₁ h₂ h₃
  · have ha : (UInt8.ofNat v).toNat = v := ofNat_toNat_of_lt (by omega)
    rw [List.cons_append, List.nil_append, hasValid_cons, ha, if_pos (by omega), isXmlChar_iff.mpr (by omega),
      Bool.true_and]
  · have ha : (UInt8.ofNat (v / 64 % 32 + 0xC0)).toNat = v / 64 % 32 + 0xC0 := ofNat_toNat_of_lt (by omega)
    have hb : (UInt8.ofNat (v % 64 + 0x80)).toNat = v % 64 + 0x80 := ofNat_toNat_of_lt (by omega)
    have hcp : codePoint ((v / 64 % 32 + 0xC0) % 32) [UInt8.ofNat (v % 64 + 0x80)] = v := by
      simp only [codePoint, List.foldl_cons, List.foldl_nil, hb]
      omega
    simp only [List.cons_append, List.nil_append]
    rw [hasValid_cons, ha, if_neg (by omega), if_pos (by omega)]
    simp only [hcp]
    rw [(isCont_iff _).mpr (by omega), isXmlChar_iff.mpr (by omega), Bool.true_and, Bool.true_and]
  · have ha : (UInt8.ofNat (v / 4096 % 16 + 0xE0)).toNat = v / 4096 % 16 + 0xE0 := ofNat_toNat_of_lt (by omega)
    have hb : (UInt8.ofNat (v / 64 % 64 + 0x80)).toNat = v / 64 % 64 + 0x80 := ofNat_toNat_of_lt (by omega)
    have hd : (UInt8.ofNat (v % 64 + 0x80)).toNat = v % 64 + 0x80 := ofNat_toNat_of_lt (by omega)
    have hcp : codePoint ((v / 4096 % 16 + 0xE0) % 16)
        [UInt8.ofNat (v / 64 % 64 + 0x80), UInt8.ofNat (v % 64 + 0x80)] = v := by
      simp only [codePoint, List.foldl_cons, List.foldl_nil, hb, hd]
      omega
    simp only [List.cons_append, List.nil_append]
    rw [hasValid_cons, ha, if_neg (by omega), if_neg (by omega), if_pos (by omega)]
    simp only [hcp]
    rw [(isCont_iff _).mpr (by omega), (isCont_iff _).mpr (by omega), isXmlChar_iff.mpr (by omega), Bool.true_and,
      Bool.true_and, Bool.true_and]
  · have ha : (UInt8.ofNat (v / 262144 % 8 + 0xF0)).toNat = v / 262144 % 8 + 0xF0 := ofNat_toNat_of_lt (by omega)
    have hb : (UInt8.ofNat (v / 4096 % 64 + 0x80)).toNat = v / 4096 % 64 + 0x80 := ofNat_toNat_of_lt (by omega)
    have hd : (UInt8.ofNat (v / 64 % 64 + 0x80)).toNat = v / 64 % 64 + 0x80 := ofNat_toNat_of_lt (by omega)
    have he : (UInt8.ofNat (v % 64 + 0x80)).toNat = v % 64 + 0x80 := ofNat_toNat_of_lt (by omega)
    have hcp : codePoint ((v / 262144 % 8 + 0xF0) % 8)
        [UInt8.ofNat (v / 4096 % 64 + 0x80), UInt8.ofNat (v / 64 % 64 + 0x80), UInt8.ofNat (v % 64 + 0x80)] = v := by
      simp only [codePoint, List.foldl_cons, List.foldl_nil, hb, hd, he]
      omega
    simp only [List.cons_append, List.nil_append]
    rw [hasValid_cons, ha, if_neg (by omega), if_neg (by omega), if_neg (by omega), if_pos (by omega)]
    simp only [hcp]
    rw [(isCont_iff _).mpr (by omega), (isCont_iff _).mpr (by omega), (isCont_iff _).mpr (by omega),
      isXmlChar_iff.mpr (by omega), Bool.true_and, Bool.true_and, Bool.true_and, Bool.true_and]

private theorem ofNat_eq {c : UInt8} {n : Nat} (h : n = c.toNat) : UInt8.ofNat n = c := by
  rw [h, UInt8.ofNat_toNat]

private theorem exists_encode {v : Nat} {length : Nat} (h : isXmlChar length v = true) {bytes : Bytes}
    (hbytes : ∀ c : Char, c.toNat = v → String.utf8EncodeChar c = bytes) :
    ∃ c : Char, IsXmlCharacter c ∧ String.utf8EncodeChar c = bytes := by
  have hv := (isXmlChar_iff.mp h).2.2.2
  have hvalid : v.isValidChar := by
    rw [Nat.isValidChar]
    omega
  exact ⟨Char.ofNatAux v hvalid, hv, hbytes _ rfl⟩

/-- What the check takes as a character is the encoding of one. -/
private theorem exists_character {a : UInt8} {xml : Bytes} (h : hasValidXmlCharacters (a :: xml) = true) :
    ∃ c rest, a :: xml = String.utf8EncodeChar c ++ rest ∧ IsXmlCharacter c ∧ hasValidXmlCharacters rest = true := by
  have hfound {v length : Nat} {rest : Bytes} (bytes : Bytes) (hv : isXmlChar length v = true)
      (hbytes : ∀ c : Char, c.toNat = v → String.utf8EncodeChar c = bytes) (heq : a :: xml = bytes ++ rest)
      (hrest : hasValidXmlCharacters rest = true) :
      ∃ c rest, a :: xml = String.utf8EncodeChar c ++ rest ∧ IsXmlCharacter c ∧ hasValidXmlCharacters rest = true := by
    obtain ⟨c, hc, hencode⟩ := exists_encode hv hbytes
    exact ⟨c, rest, by rw [hencode, heq], hc, hrest⟩
  rw [hasValid_cons] at h
  split_ifs at h with h₁ h₂ h₃ h₄
  · rw [Bool.and_eq_true] at h
    refine hfound [a] h.1 (fun c hc => ?_) rfl h.2
    have hv : c.val.toNat = a.toNat := hc
    rw [String.utf8EncodeChar, hv, if_pos (by omega), UInt8.ofNat_toNat]
  · rcases xml with _ | ⟨b, xml⟩
    · cases h
    simp only [Bool.and_eq_true, isCont_iff] at h
    obtain ⟨⟨hb, hchar⟩, hrest⟩ := h
    refine hfound [a, b] hchar (fun c hc => ?_) rfl hrest
    have hv : c.val.toNat = codePoint (a.toNat % 32) [b] := hc
    have hcp : codePoint (a.toNat % 32) [b] = a.toNat % 32 * 64 + b.toNat % 64 := rfl
    rw [String.utf8EncodeChar, hv, hcp, if_neg (by omega), if_pos (by omega),
      ofNat_eq (by omega : _ = a.toNat), ofNat_eq (by omega : _ = b.toNat)]
  · rcases xml with _ | ⟨b, _ | ⟨d, xml⟩⟩
    · cases h
    · cases h
    simp only [Bool.and_eq_true, isCont_iff] at h
    obtain ⟨⟨⟨hb, hd⟩, hchar⟩, hrest⟩ := h
    refine hfound [a, b, d] hchar (fun c hc => ?_) rfl hrest
    have hbounds := isXmlChar_iff.mp hchar
    have hv : c.val.toNat = codePoint (a.toNat % 16) [b, d] := hc
    have hcp : codePoint (a.toNat % 16) [b, d] = (a.toNat % 16 * 64 + b.toNat % 64) * 64 + d.toNat % 64 := rfl
    rw [hcp] at hbounds
    rw [String.utf8EncodeChar, hv, hcp, if_neg (by omega), if_neg (by omega), if_pos (by omega),
      ofNat_eq (by omega : _ = a.toNat), ofNat_eq (by omega : _ = b.toNat), ofNat_eq (by omega : _ = d.toNat)]
  · rcases xml with _ | ⟨b, _ | ⟨d, _ | ⟨e, xml⟩⟩⟩
    · cases h
    · cases h
    · cases h
    simp only [Bool.and_eq_true, isCont_iff] at h
    obtain ⟨⟨⟨⟨hb, hd⟩, he⟩, hchar⟩, hrest⟩ := h
    refine hfound [a, b, d, e] hchar (fun c hc => ?_) rfl hrest
    have hbounds := isXmlChar_iff.mp hchar
    have hv : c.val.toNat = codePoint (a.toNat % 8) [b, d, e] := hc
    have hcp : codePoint (a.toNat % 8) [b, d, e] =
        ((a.toNat % 8 * 64 + b.toNat % 64) * 64 + d.toNat % 64) * 64 + e.toNat % 64 := rfl
    rw [hcp] at hbounds
    rw [String.utf8EncodeChar, hv, hcp, if_neg (by omega), if_neg (by omega), if_neg (by omega),
      ofNat_eq (by omega : _ = a.toNat), ofNat_eq (by omega : _ = b.toNat), ofNat_eq (by omega : _ = d.toNat),
      ofNat_eq (by omega : _ = e.toNat)]

end Encoding

/-- The check is passed by the UTF-8 of the characters that XML allows, and by nothing else. -/
theorem hasValidXmlCharacters_iff (xml : Bytes) :
    hasValidXmlCharacters xml = true ↔
      ∃ characters : List Char, (∀ c ∈ characters, IsXmlCharacter c) ∧
        xml = characters.flatMap String.utf8EncodeChar := by
  constructor
  · intro h
    induction hlength : xml.length using Nat.strong_induction_on generalizing xml with
    | _ length ih =>
      cases xml with
      | nil => exact ⟨[], fun c hc => (nomatch hc), rfl⟩
      | cons a xml =>
        obtain ⟨c, rest, heq, hc, hrest⟩ := exists_character h
        have hshorter : rest.length < length := by
          have hpos : 0 < (String.utf8EncodeChar c).length := by
            rw [String.length_utf8EncodeChar]
            exact c.utf8Size_pos
          rw [← hlength, heq, List.length_append]
          omega
        obtain ⟨characters, hall, hchars⟩ := ih rest.length hshorter rest hrest rfl
        refine ⟨c :: characters, List.forall_mem_cons.mpr ⟨hc, hall⟩, ?_⟩
        rw [heq, List.flatMap_cons, ← hchars]
  · rintro ⟨characters, hall, rfl⟩
    induction characters with
    | nil => rfl
    | cons c characters ih =>
      rw [List.flatMap_cons, hasValid_encode (hall c List.mem_cons_self)]
      exact ih fun d hd => hall d (List.mem_cons_of_mem c hd)

end Kompli.Cli
