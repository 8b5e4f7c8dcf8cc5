import Kompli.ComplianceEngine.JsonWrapper
import Kompli.Foundation.Sextets

/-! What the decoder of base64 makes of the standard encoding, and which other texts it takes. -/
namespace Kompli
open Parson Ascii Foundation

namespace Base64
open Sextets

/-- Padding fills the last group of four only, to its end, and the bits that it leaves over are zero. -/
def Padded : Bytes → Prop
  | _ :: c₁ :: c₂ :: c₃ :: input =>
    if input = [] then
      (c₂ = padding → c₃ = padding ∧ base64Char c₁ &&& 0x0F = 0) ∧
        (c₂ ≠ padding → c₃ = padding → base64Char c₂ &&& 0x03 = 0)
    else c₂ ≠ padding ∧ c₃ ≠ padding ∧ Padded input
  | input => input = []

section Characters

private theorem sextet_char {v : UInt8} (h : IsSextet v) :
    base64Char (char v) = v ∧ isBase64 (char v) = true ∧ char v ≠ padding := by
  have hall : ∀ i : Fin 64, base64Char (char (UInt8.ofNat i)) = UInt8.ofNat i ∧
      isBase64 (char (UInt8.ofNat i)) = true ∧ char (UInt8.ofNat i) ≠ padding := by decide +kernel
  have hv := hall ⟨v.toNat, UInt8.lt_iff_toNat_lt.mp h⟩
  rwa [UInt8.ofNat_toNat] at hv

private theorem char_sextet {c : UInt8} (h : isBase64 c = true) (hne : c ≠ padding) :
    IsSextet (base64Char c) ∧ char (base64Char c) = c :=
  forall_byte (P := fun c => isBase64 c = true → c ≠ padding → IsSextet (base64Char c) ∧ char (base64Char c) = c)
    (by decide +kernel) c h hne

private theorem char_eq_iff {v c : UInt8} (hv : IsSextet v) (h : isBase64 c = true) (hne : c ≠ padding) :
    char v = c ↔ v = base64Char c := by
  constructor
  · rintro rfl
    exact (sextet_char hv).1.symm
  · rintro rfl
    exact (char_sextet h hne).2

end Characters

section Decode

private theorem encode_isBase64 (bytes : Bytes) : (encode bytes).all isBase64 = true := by
  induction bytes using encode.induct with
  | case1 a b c rest ih =>
    simp only [encode, List.all_cons, Bool.and_eq_true]
    exact ⟨(sextet_char (first_isSextet a)).2.1, (sextet_char (second_isSextet a b)).2.1,
      (sextet_char (third_isSextet b c)).2.1, (sextet_char (fourth_isSextet c)).2.1, ih⟩
  | case2 a b =>
    simp only [encode, List.all_cons, List.all_nil, Bool.and_eq_true]
    exact ⟨(sextet_char (first_isSextet a)).2.1, (sextet_char (second_isSextet a b)).2.1,
      (sextet_char (third_isSextet b 0)).2.1, rfl, trivial⟩
  | case3 a =>
    simp only [encode, List.all_cons, List.all_nil, Bool.and_eq_true]
    exact ⟨(sextet_char (first_isSextet a)).2.1, (sextet_char (second_isSextet a 0)).2.1, rfl, rfl, trivial⟩
  | case4 => rfl

private theorem decodeBlock_full {c₀ c₁ c₂ c₃ : UInt8} (h₀ : c₀ ≠ padding) (h₁ : c₁ ≠ padding) (h₂ : c₂ ≠ padding)
    (h₃ : c₃ ≠ padding) :
    decodeBlock c₀ c₁ c₂ c₃ =
      .ok [byte₀ (base64Char c₀) (base64Char c₁), byte₁ (base64Char c₁) (base64Char c₂),
        byte₂ (base64Char c₂) (base64Char c₃)] := by
  simp only [decodeBlock, h₀, h₁, h₂, h₃, or_self, ↓reduceIte]
  rfl

private theorem decodeBlock_two {c₀ c₁ c₂ : UInt8} (h₀ : c₀ ≠ padding) (h₁ : c₁ ≠ padding) (h₂ : c₂ ≠ padding) :
    decodeBlock c₀ c₁ c₂ padding =
      .ok [byte₀ (base64Char c₀) (base64Char c₁), byte₁ (base64Char c₁) (base64Char c₂)] := by
  simp only [decodeBlock, h₀, h₁, h₂, or_self, ↓reduceIte]
  rfl

private theorem decodeBlock_one {c₀ c₁ : UInt8} (h₀ : c₀ ≠ padding) (h₁ : c₁ ≠ padding) (c₃ : UInt8) :
    decodeBlock c₀ c₁ padding c₃ = .ok [byte₀ (base64Char c₀) (base64Char c₁)] := by
  simp only [decodeBlock, h₀, h₁, or_self, ↓reduceIte]
  rfl

private theorem decodeBlocks_encode (bytes : Bytes) : decodeBlocks (encode bytes) = .ok bytes := by
  induction bytes using encode.induct with
  | case1 a b c rest ih =>
    obtain ⟨h₀, -, hne₀⟩ := sextet_char (first_isSextet a)
    obtain ⟨h₁, -, hne₁⟩ := sextet_char (second_isSextet a b)
    obtain ⟨h₂, -, hne₂⟩ := sextet_char (third_isSextet b c)
    obtain ⟨h₃, -, hne₃⟩ := sextet_char (fourth_isSextet c)
    rw [encode, decodeBlocks, decodeBlock_full hne₀ hne₁ hne₂ hne₃, ih, h₀, h₁, h₂, h₃, byte₀_split,
      byte₁_split, byte₂_split]
    rfl
  | case2 a b =>
    obtain ⟨h₀, -, hne₀⟩ := sextet_char (first_isSextet a)
    obtain ⟨h₁, -, hne₁⟩ := sextet_char (second_isSextet a b)
    obtain ⟨h₂, -, hne₂⟩ := sextet_char (third_isSextet b 0)
    rw [encode, decodeBlocks, decodeBlock_two hne₀ hne₁ hne₂, h₀, h₁, h₂, byte₀_split, byte₁_split]
    rfl
  | case3 a =>
    obtain ⟨h₀, -, hne₀⟩ := sextet_char (first_isSextet a)
    obtain ⟨h₁, -, hne₁⟩ := sextet_char (second_isSextet a 0)
    rw [encode, decodeBlocks, decodeBlock_one hne₀ hne₁, h₀, h₁, byte₀_split]
    rfl
  | case4 => rfl

/-- Every byte string is decoded from its standard encoding. -/
theorem decode_encode (bytes : Bytes) : decode (encode bytes) = .ok bytes := by
  rw [decode, if_neg (by simp [encode_length]), if_neg (by simp [encode_isBase64]), decodeBlocks_encode]

end Decode

section Accepted

/-- The characters of a group that is decoded, up to its padding. -/
private theorem decodeBlock_cases {c₀ c₁ c₂ c₃ : UInt8} {block : Bytes} (h : decodeBlock c₀ c₁ c₂ c₃ = .ok block) :
    c₀ ≠ padding ∧ c₁ ≠ padding ∧
      ((c₂ = padding ∧ block = [byte₀ (base64Char c₀) (base64Char c₁)]) ∨
        (c₂ ≠ padding ∧ c₃ = padding ∧
          block = [byte₀ (base64Char c₀) (base64Char c₁), byte₁ (base64Char c₁) (base64Char c₂)]) ∨
        (c₂ ≠ padding ∧ c₃ ≠ padding ∧
          block = [byte₀ (base64Char c₀) (base64Char c₁), byte₁ (base64Char c₁) (base64Char c₂),
            byte₂ (base64Char c₂) (base64Char c₃)])) := by
  by_cases hpadding : c₀ = padding ∨ c₁ = padding
  · simp [decodeBlock, hpadding] at h
  · obtain ⟨h₀, h₁⟩ := not_or.mp hpadding
    refine ⟨h₀, h₁, ?_⟩
    by_cases h₂ : c₂ = padding
    · subst h₂
      rw [decodeBlock_one h₀ h₁] at h
      exact .inl ⟨rfl, (Except.ok.inj h).symm⟩
    · by_cases h₃ : c₃ = padding
      · subst h₃
        rw [decodeBlock_two h₀ h₁ h₂] at h
        exact .inr (.inl ⟨h₂, rfl, (Except.ok.inj h).symm⟩)
      · rw [decodeBlock_full h₀ h₁ h₂ h₃] at h
        exact .inr (.inr ⟨h₂, h₃, (Except.ok.inj h).symm⟩)

private theorem decodeBlocks_cons {c₀ c₁ c₂ c₃ : UInt8} {input bytes : Bytes}
    (h : decodeBlocks (c₀ :: c₁ :: c₂ :: c₃ :: input) = .ok bytes) :
    ∃ block rest, decodeBlock c₀ c₁ c₂ c₃ = .ok block ∧ decodeBlocks input = .ok rest ∧ bytes = block ++ rest := by
  rw [decodeBlocks] at h
  rcases hblock : decodeBlock c₀ c₁ c₂ c₃ with e | block <;> rw [hblock] at h
  · cases h
  · rcases hrest : decodeBlocks input with e | rest <;> rw [hrest] at h
    · cases h
    · exact ⟨block, rest, rfl, rfl, (Except.ok.inj h).symm⟩

private theorem decodeBlocks_ne_nil {input bytes : Bytes} (hlength : input.length % 4 = 0) (hne : input ≠ [])
    (h : decodeBlocks input = .ok bytes) : bytes ≠ [] := by
  rcases input with _ | ⟨c₀, _ | ⟨c₁, _ | ⟨c₂, _ | ⟨c₃, input⟩⟩⟩⟩
  · exact absurd rfl hne
  all_goals try simp at hlength
  obtain ⟨block, rest, hblock, -, rfl⟩ := decodeBlocks_cons h
  obtain ⟨-, -, ⟨-, rfl⟩ | ⟨-, -, rfl⟩ | ⟨-, -, rfl⟩⟩ := decodeBlock_cases hblock <;> simp

/-- Two bytes leave no room for padding in the third place, and three none in the fourth. -/
private theorem encode_third {a b : UInt8} {rest : Bytes} {c₀ c₁ c₂ c₃ : UInt8} {input : Bytes}
    (h : encode (a :: b :: rest) = c₀ :: c₁ :: c₂ :: c₃ :: input) : c₂ ≠ padding := by
  rcases rest with _ | ⟨c, rest⟩
  · simp only [encode, List.cons.injEq] at h
    exact h.2.2.1 ▸ (sextet_char (third_isSextet b 0)).2.2
  · simp only [encode, List.cons.injEq] at h
    exact h.2.2.1 ▸ (sextet_char (third_isSextet b c)).2.2

private theorem encode_fourth {a b c : UInt8} {rest : Bytes} {c₀ c₁ c₂ c₃ : UInt8} {input : Bytes}
    (h : encode (a :: b :: c :: rest) = c₀ :: c₁ :: c₂ :: c₃ :: input) : c₃ ≠ padding := by
  simp only [encode, List.cons.injEq] at h
  exact h.2.2.2.1 ▸ (sextet_char (fourth_isSextet c)).2.2

section Quantum

variable {c₀ c₁ c₂ c₃ : UInt8} (h₀ : isBase64 c₀ = true) (h₁ : isBase64 c₁ = true) (hne₀ : c₀ ≠ padding)
  (hne₁ : c₁ ≠ padding)

include h₀ h₁ hne₀ hne₁ in
private theorem encode_one_iff :
    encode [byte₀ (base64Char c₀) (base64Char c₁)] = [c₀, c₁, padding, c₃] ↔
      c₃ = padding ∧ base64Char c₁ &&& 0x0F = 0 := by
  have hv₀ := (char_sextet h₀ hne₀).1
  have hv₁ := (char_sextet h₁ hne₁).1
  rw [encode, first_join hv₀ hv₁, (char_sextet h₀ hne₀).2]
  simp only [List.cons.injEq, true_and, and_true, char_eq_iff (second_isSextet _ 0) h₁ hne₁, second_last_iff hv₁]
  constructor
  · rintro ⟨hbits, hc₃⟩
    exact ⟨hc₃.symm, hbits⟩
  · rintro ⟨hc₃, hbits⟩
    exact ⟨hbits, hc₃.symm⟩

include h₀ h₁ hne₀ hne₁ in
private theorem encode_two_iff (h₂ : isBase64 c₂ = true) (hne₂ : c₂ ≠ padding) :
    encode [byte₀ (base64Char c₀) (base64Char c₁), byte₁ (base64Char c₁) (base64Char c₂)] = [c₀, c₁, c₂, padding] ↔
      base64Char c₂ &&& 0x03 = 0 := by
  have hv₀ := (char_sextet h₀ hne₀).1
  have hv₁ := (char_sextet h₁ hne₁).1
  have hv₂ := (char_sextet h₂ hne₂).1
  rw [encode, first_join hv₀ hv₁, second_join hv₁ hv₂, (char_sextet h₀ hne₀).2, (char_sextet h₁ hne₁).2]
  simp only [List.cons.injEq, true_and, and_true, char_eq_iff (third_isSextet _ 0) h₂ hne₂, third_last_iff hv₂]

include h₀ h₁ hne₀ hne₁ in
private theorem encode_full_iff (h₂ : isBase64 c₂ = true) (hne₂ : c₂ ≠ padding) (h₃ : isBase64 c₃ = true)
    (hne₃ : c₃ ≠ padding) (rest input : Bytes) :
    encode (byte₀ (base64Char c₀) (base64Char c₁) :: byte₁ (base64Char c₁) (base64Char c₂) ::
        byte₂ (base64Char c₂) (base64Char c₃) :: rest) = c₀ :: c₁ :: c₂ :: c₃ :: input ↔ encode rest = input := by
  have hv₀ := (char_sextet h₀ hne₀).1
  have hv₁ := (char_sextet h₁ hne₁).1
  have hv₂ := (char_sextet h₂ hne₂).1
  have hv₃ := (char_sextet h₃ hne₃).1
  rw [encode, first_join hv₀ hv₁, second_join hv₁ hv₂, third_join hv₂ hv₃, fourth_join hv₃, (char_sextet h₀ hne₀).2,
    (char_sextet h₁ hne₁).2, (char_sextet h₂ hne₂).2, (char_sextet h₃ hne₃).2]
  simp only [List.cons.injEq, true_and]

end Quantum

private theorem encode_decodeBlocks_iff {input bytes : Bytes} (hlength : input.length % 4 = 0)
    (hall : input.all isBase64 = true) (h : decodeBlocks input = .ok bytes) : encode bytes = input ↔ Padded input := by
  induction input using decodeBlocks.induct generalizing bytes with
  | case1 c₀ c₁ c₂ c₃ input ih =>
    simp only [List.all_cons, Bool.and_eq_true] at hall
    obtain ⟨h₀, h₁, h₂, h₃, hinput⟩ := hall
    have hrestLength : input.length % 4 = 0 := by
      simp only [List.length_cons] at hlength
      omega
    obtain ⟨block, rest, hblock, hrest, rfl⟩ := decodeBlocks_cons h
    have hnil : input = [] → rest = [] := by
      rintro rfl
      exact (Except.ok.inj hrest).symm
    have hcons : input ≠ [] → ∃ r rest', rest = r :: rest' := fun hne =>
      List.exists_cons_of_ne_nil (decodeBlocks_ne_nil hrestLength hne hrest)
    obtain ⟨hne₀, hne₁, ⟨rfl, rfl⟩ | ⟨hne₂, rfl, rfl⟩ | ⟨hne₂, hne₃, rfl⟩⟩ := decodeBlock_cases hblock
    · by_cases hinput : input = []
      · rw [hnil hinput, hinput, Padded, if_pos rfl]
        simp only [List.append_nil, encode_one_iff h₀ h₁ hne₀ hne₁, forall_const, ne_eq, not_true_eq_false,
          IsEmpty.forall_iff, and_true]
      · obtain ⟨r, rest', rfl⟩ := hcons hinput
        rw [Padded, if_neg hinput]
        exact ⟨fun hencode => absurd rfl (encode_third hencode), fun hpadded => absurd rfl hpadded.1⟩
    · by_cases hinput : input = []
      · rw [hnil hinput, hinput, Padded, if_pos rfl]
        simp only [List.append_nil, encode_two_iff h₀ h₁ hne₀ hne₁ h₂ hne₂, hne₂, IsEmpty.forall_iff, ne_eq,
          not_false_eq_true, forall_const, true_and]
      · obtain ⟨r, rest', rfl⟩ := hcons hinput
        rw [Padded, if_neg hinput]
        exact ⟨fun hencode => absurd rfl (encode_fourth hencode), fun hpadded => absurd rfl hpadded.2.1⟩
    · have htail := ih hrestLength hinput hrest
      rw [List.cons_append, List.cons_append, List.cons_append, List.nil_append,
        encode_full_iff h₀ h₁ hne₀ hne₁ h₂ hne₂ h₃ hne₃, htail, Padded]
      by_cases hinput : input = []
      · simp only [hinput, ↓reduceIte, hne₂, hne₃, IsEmpty.forall_iff, ne_eq, not_false_eq_true, forall_const,
          and_self, iff_true]
        rfl
      · simp only [hinput, ↓reduceIte, ne_eq, hne₂, hne₃, not_false_eq_true, true_and]
  | case2 input hshort =>
    obtain rfl : input = [] := by
      rcases input with _ | ⟨c₀, _ | ⟨c₁, _ | ⟨c₂, _ | ⟨c₃, input⟩⟩⟩⟩
      · rfl
      all_goals try simp at hlength
      exact absurd rfl (hshort c₀ c₁ c₂ c₃ input)
    obtain rfl : bytes = [] := (Except.ok.inj h).symm
    exact ⟨fun _ => rfl, fun _ => rfl⟩

private theorem decode_ok {input bytes : Bytes} (h : decode input = .ok bytes) :
    input.length % 4 = 0 ∧ input.all isBase64 = true ∧ decodeBlocks input = .ok bytes := by
  rw [decode] at h
  split_ifs at h with hlength hall
  exact ⟨not_not.mp hlength, hall, h⟩

end Accepted

/-- Decoding inverts the standard encoding, and a text that is decoded is the encoding of its bytes
just when it is padded as the standard says. -/
theorem decode_inverts_encode_iff (bytes input : Bytes) :
    decode (encode bytes) = .ok bytes ∧
      ∀ decoded, decode input = .ok decoded → (encode decoded = input ↔ Padded input) := by
  refine ⟨decode_encode bytes, fun decoded h => ?_⟩
  obtain ⟨hlength, hall, hblocks⟩ := decode_ok h
  exact encode_decodeBlocks_iff hlength hall hblocks

/-- "QQ==QQ==" is decoded as two bytes, which are written "QUE=". -/
theorem decode_takes_inner_padding :
    ¬ ∀ input bytes, decode input = .ok bytes → encode bytes = input := by
  intro h
  have hdecode : decode (utf8 "QQ==QQ==") = .ok [0x41, 0x41] := by decide +kernel
  exact absurd (h _ _ hdecode) (by decide +kernel)

end Base64
end Kompli
