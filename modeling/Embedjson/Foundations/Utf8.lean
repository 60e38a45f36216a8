import Embedjson.Foundations.Bytes

/-! Well-formed UTF-8 texts, and the table of the byte sequences that encode one character. -/

namespace Embedjson.Foundations.Utf8

def WellFormed (bytes : List UInt8) : Prop := ∃ cs : List Char, cs.flatMap String.utf8EncodeChar = bytes

def Tail (b : UInt8) : Prop := 0x80 ≤ b ∧ b ≤ 0xbf

/-- The second byte of a longer sequence, whose range is narrower behind four of the leads. -/
def Second (lead b : UInt8) : Prop :=
  Tail b ∧ (lead = 0xe0 → 0xa0 ≤ b) ∧ (lead = 0xed → b ≤ 0x9f) ∧ (lead = 0xf0 → 0x90 ≤ b) ∧
    (lead = 0xf4 → b ≤ 0x8f)

instance : DecidablePred Tail := fun _ => inferInstanceAs (Decidable (_ ∧ _))

instance (lead : UInt8) : DecidablePred (Second lead) := fun _ => inferInstanceAs (Decidable (_ ∧ _))

inductive Encoded : List UInt8 → Prop
  | one {a} (h : a ≤ 0x7f) : Encoded [a]
  | two {a b} (h₁ : 0xc2 ≤ a) (h₂ : a ≤ 0xdf) (hb : Tail b) : Encoded [a, b]
  | three {a b c} (h₁ : 0xe0 ≤ a) (h₂ : a ≤ 0xef) (hb : Second a b) (hc : Tail c) : Encoded [a, b, c]
  | four {a b c d} (h₁ : 0xf0 ≤ a) (h₂ : a ≤ 0xf4) (hb : Second a b) (hc : Tail c) (hd : Tail d) :
      Encoded [a, b, c, d]

variable {a b : UInt8} {bytes rest : List UInt8}

section Characters

lemma tail_iff : Tail b ↔ 0x80 ≤ b.toNat ∧ b.toNat ≤ 0xbf := Iff.rfl

lemma second_iff : Second a b ↔ Tail b ∧ (a.toNat = 0xe0 → 0xa0 ≤ b.toNat) ∧
    (a.toNat = 0xed → b.toNat ≤ 0x9f) ∧ (a.toNat = 0xf0 → 0x90 ≤ b.toNat) ∧
    (a.toNat = 0xf4 → b.toNat ≤ 0x8f) := by
  simp only [Second, ← UInt8.toNat_inj, UInt8.le_iff_toNat_le]
  rfl

lemma encoded_utf8EncodeChar (c : Char) : Encoded (String.utf8EncodeChar c) := by
  have hc : c.val.toNat < 0xd800 ∨ (0xdfff < c.val.toNat ∧ c.val.toNat < 0x110000) := c.valid
  have hbyte (n : ℕ) : (UInt8.ofNat n).toNat = n % 2 ^ 8 := UInt8.toNat_ofNat'
  unfold String.utf8EncodeChar
  dsimp only
  generalize c.val.toNat = v at hc
  split_ifs with h₁ h₂ h₃
  · exact .one (by rw [UInt8.le_iff_toNat_le, hbyte]; change _ ≤ 0x7f; omega)
  · refine .two ?_ ?_ ?_
    · rw [UInt8.le_iff_toNat_le, hbyte]; change 0xc2 ≤ _; omega
    · rw [UInt8.le_iff_toNat_le, hbyte]; change _ ≤ 0xdf; omega
    · rw [tail_iff, hbyte]; omega
  · refine .three ?_ ?_ ?_ ?_
    · rw [UInt8.le_iff_toNat_le, hbyte]; change 0xe0 ≤ _; omega
    · rw [UInt8.le_iff_toNat_le, hbyte]; change _ ≤ 0xef; omega
    · rw [second_iff, tail_iff, hbyte, hbyte]; omega
    · rw [tail_iff, hbyte]; omega
  · refine .four ?_ ?_ ?_ ?_ ?_
    · rw [UInt8.le_iff_toNat_le, hbyte]; change 0xf0 ≤ _; omega
    · rw [UInt8.le_iff_toNat_le, hbyte]; change _ ≤ 0xf4; omega
    · rw [second_iff, tail_iff, hbyte, hbyte]; omega
    · rw [tail_iff, hbyte]; omega
    · rw [tail_iff, hbyte]; omega

lemma exists_char {v : ℕ} (hv : v < 0xd800 ∨ (0xdfff < v ∧ v < 0x110000)) :
    ∃ c : Char, c.val.toNat = v :=
  ⟨Char.ofNatAux v hv, rfl⟩

lemma exists_utf8EncodeChar (h : Encoded bytes) : ∃ c, String.utf8EncodeChar c = bytes := by
  have hbyte (n : ℕ) (b : UInt8) (h : n % 2 ^ 8 = b.toNat) : UInt8.ofNat n = b := by
    rw [← UInt8.toNat_inj, ← h]
    exact UInt8.toNat_ofNat'
  cases h with
  | @one a h =>
    have ha : a.toNat ≤ 0x7f := h
    obtain ⟨c, hc⟩ := exists_char (v := a.toNat) (by omega)
    refine ⟨c, ?_⟩
    rw [String.utf8EncodeChar, hc, if_pos ha, hbyte _ a (by omega)]
  | @two a b h₁ h₂ hb =>
    have ha₁ : 0xc2 ≤ a.toNat := h₁
    have ha₂ : a.toNat ≤ 0xdf := h₂
    rw [tail_iff] at hb
    obtain ⟨c, hc⟩ := exists_char (v := (a.toNat - 0xc0) * 64 + (b.toNat - 0x80)) (by omega)
    refine ⟨c, ?_⟩
    rw [String.utf8EncodeChar, hc, if_neg (by omega), if_pos (by omega), hbyte _ a (by omega),
      hbyte _ b (by omega)]
  | @three a b d h₁ h₂ hb hd =>
    have ha₁ : 0xe0 ≤ a.toNat := h₁
    have ha₂ : a.toNat ≤ 0xef := h₂
    rw [second_iff, tail_iff] at hb
    rw [tail_iff] at hd
    obtain ⟨c, hc⟩ := exists_char
      (v := (a.toNat - 0xe0) * 4096 + (b.toNat - 0x80) * 64 + (d.toNat - 0x80)) (by omega)
    refine ⟨c, ?_⟩
    rw [String.utf8EncodeChar, hc, if_neg (by omega), if_neg (by omega), if_pos (by omega),
      hbyte _ a (by omega), hbyte _ b (by omega), hbyte _ d (by omega)]
  | @four a b d e h₁ h₂ hb hd he =>
    have ha₁ : 0xf0 ≤ a.toNat := h₁
    have ha₂ : a.toNat ≤ 0xf4 := h₂
    rw [second_iff, tail_iff] at hb
    rw [tail_iff] at hd he
    obtain ⟨c, hc⟩ := exists_char (v := (a.toNat - 0xf0) * 262144 + (b.toNat - 0x80) * 4096 +
      (d.toNat - 0x80) * 64 + (e.toNat - 0x80)) (by omega)
    refine ⟨c, ?_⟩
    rw [String.utf8EncodeChar, hc, if_neg (by omega), if_neg (by omega), if_neg (by omega),
      hbyte _ a (by omega), hbyte _ b (by omega), hbyte _ d (by omega), hbyte _ e (by omega)]

theorem encoded_iff : Encoded bytes ↔ ∃ c, String.utf8EncodeChar c = bytes := by
  constructor
  · exact exists_utf8EncodeChar
  · rintro ⟨c, rfl⟩
    exact encoded_utf8EncodeChar c

lemma utf8EncodeChar_ascii {c : Char} (h : c.val.toNat ≤ 0x7f) :
    String.utf8EncodeChar c = [UInt8.ofNat c.val.toNat] := by
  rw [String.utf8EncodeChar, if_pos h]

lemma utf8EncodeChar_head {c : Char} (h : ¬c.val.toNat ≤ 0x7f) {rest : List UInt8}
    (heq : String.utf8EncodeChar c = a :: rest) : 0xc2 ≤ a := by
  have henc := encoded_utf8EncodeChar c
  rw [heq] at henc
  cases henc with
  | one _ =>
    rw [String.utf8EncodeChar, if_neg h] at heq
    split_ifs at heq <;> simp at heq
  | two h₁ _ => exact h₁
  | three h₁ _ => exact UInt8.le_trans (by decide) h₁
  | four h₁ _ => exact UInt8.le_trans (by decide) h₁

lemma utf8EncodeChar_planeTwo (c : Char) :
    (∃ b rest, String.utf8EncodeChar c = 0xf0 :: b :: rest ∧ 0xa0 ≤ b ∧ b ≤ 0xaf) ↔
      0x20000 ≤ c.val.toNat ∧ c.val.toNat ≤ 0x2ffff := by
  have hc : c.val.toNat < 0xd800 ∨ (0xdfff < c.val.toNat ∧ c.val.toNat < 0x110000) := c.valid
  have hbyte (n : ℕ) : (UInt8.ofNat n).toNat = n % 2 ^ 8 := UInt8.toNat_ofNat'
  unfold String.utf8EncodeChar
  dsimp only
  generalize c.val.toNat = v at hc
  simp only [UInt8.le_iff_toNat_le]
  split_ifs with h₁ h₂ h₃
  · simp; omega
  · constructor
    · rintro ⟨b, rest, heq, -⟩
      have h := congrArg UInt8.toNat (List.cons.inj heq).1
      rw [hbyte] at h
      change _ = 0xf0 at h
      omega
    · omega
  · constructor
    · rintro ⟨b, rest, heq, -⟩
      have h := congrArg UInt8.toNat (List.cons.inj heq).1
      rw [hbyte] at h
      change _ = 0xf0 at h
      omega
    · omega
  · constructor
    · rintro ⟨b, rest, heq, hb₁, hb₂⟩
      obtain ⟨h, htail⟩ := List.cons.inj heq
      obtain ⟨rfl, -⟩ := List.cons.inj htail
      replace h := congrArg UInt8.toNat h
      rw [hbyte] at h hb₁ hb₂
      change _ = 0xf0 at h
      change 0xa0 ≤ _ at hb₁
      change _ ≤ 0xaf at hb₂
      omega
    · rintro ⟨hv₁, hv₂⟩
      refine ⟨_, _, congrArg₂ List.cons ?_ rfl, ?_, ?_⟩
      · rw [← UInt8.toNat_inj, hbyte]
        change _ = 0xf0
        omega
      · rw [hbyte]
        change 0xa0 ≤ _
        omega
      · rw [hbyte]
        change _ ≤ 0xaf
        omega

def size (lead : UInt8) : ℕ :=
  if lead.toNat ≤ 0x7f then 1 else if lead.toNat ≤ 0xdf then 2
  else if lead.toNat ≤ 0xef then 3 else 4

lemma Encoded.length_eq (h : Encoded (a :: rest)) : (a :: rest).length = size a := by
  unfold size
  cases h with
  | one h =>
    have h : a.toNat ≤ 0x7f := h
    rw [if_pos h]
    rfl
  | two h₁ h₂ =>
    have h₁ : 0xc2 ≤ a.toNat := h₁
    have h₂ : a.toNat ≤ 0xdf := h₂
    rw [if_neg (by omega), if_pos h₂]
    rfl
  | three h₁ h₂ =>
    have h₁ : 0xe0 ≤ a.toNat := h₁
    have h₂ : a.toNat ≤ 0xef := h₂
    rw [if_neg (by omega), if_neg (by omega), if_pos h₂]
    rfl
  | four h₁ h₂ =>
    have h₁ : 0xf0 ≤ a.toNat := h₁
    rw [if_neg (by omega), if_neg (by omega), if_neg (by omega)]
    rfl

lemma Encoded.ne_nil (h : Encoded bytes) : bytes ≠ [] := by cases h <;> simp

lemma Encoded.first (h : Encoded (a :: rest)) : a ≤ 0x7f ∨ 0xc2 ≤ a ∧ a ≤ 0xf4 := by
  cases h with
  | one h => exact .inl h
  | two h₁ h₂ => exact .inr ⟨h₁, UInt8.le_trans h₂ (by decide)⟩
  | three h₁ h₂ => exact .inr ⟨UInt8.le_trans (by decide) h₁, UInt8.le_trans h₂ (by decide)⟩
  | four h₁ h₂ => exact .inr ⟨UInt8.le_trans (by decide) h₁, h₂⟩

lemma Encoded.append_inj {bytes' rest' : List UInt8} (h : Encoded bytes) (h' : Encoded bytes')
    (heq : bytes ++ rest = bytes' ++ rest') : bytes = bytes' ∧ rest = rest' := by
  obtain ⟨a, l, rfl⟩ := List.exists_cons_of_ne_nil h.ne_nil
  obtain ⟨a', l', rfl⟩ := List.exists_cons_of_ne_nil h'.ne_nil
  obtain rfl : a = a' := (List.cons.inj heq).1
  exact List.append_inj heq (h.length_eq.trans h'.length_eq.symm)

end Characters

section Texts

lemma wellFormed_nil : WellFormed [] := ⟨[], rfl⟩

lemma WellFormed.cons (h : Encoded bytes) (hr : WellFormed rest) : WellFormed (bytes ++ rest) := by
  obtain ⟨c, rfl⟩ := encoded_iff.mp h
  obtain ⟨cs, rfl⟩ := hr
  exact ⟨c :: cs, rfl⟩

lemma Encoded.wellFormed (h : Encoded bytes) : WellFormed bytes := by
  simpa using wellFormed_nil.cons h

lemma wellFormed_ascii (h : ∀ b ∈ bytes, b ≤ 0x7f) : WellFormed bytes := by
  induction bytes with
  | nil => exact wellFormed_nil
  | cons b bytes ih =>
    rw [List.forall_mem_cons] at h
    exact WellFormed.cons (.one h.1) (ih h.2)

lemma WellFormed.append (h : WellFormed bytes) (hr : WellFormed rest) :
    WellFormed (bytes ++ rest) := by
  obtain ⟨cs, rfl⟩ := h
  obtain ⟨ds, rfl⟩ := hr
  exact ⟨cs ++ ds, List.flatMap_append⟩

lemma WellFormed.exists_cons (h : WellFormed bytes) (hne : bytes ≠ []) :
    ∃ ch rest, bytes = ch ++ rest ∧ Encoded ch ∧ WellFormed rest := by
  obtain ⟨cs, rfl⟩ := h
  cases cs with
  | nil => exact absurd rfl hne
  | cons c cs => exact ⟨_, _, rfl, encoded_utf8EncodeChar c, cs, rfl⟩

lemma WellFormed.of_append (h : WellFormed bytes) (hall : WellFormed (bytes ++ rest)) :
    WellFormed rest := by
  obtain ⟨cs, rfl⟩ := h
  induction cs with
  | nil => exact hall
  | cons c cs ih =>
    have hc := encoded_utf8EncodeChar c
    rw [List.flatMap_cons, List.append_assoc] at hall
    obtain ⟨ch, tail, heq, hch, htail⟩ := hall.exists_cons (by simp [hc.ne_nil])
    obtain ⟨-, rfl⟩ := hc.append_inj hch heq
    exact ih htail

lemma Encoded.eq_singleton (h : Encoded bytes) (hb : b ∈ bytes) (hascii : b ≤ 0x7f) :
    bytes = [b] := by
  have htail {c : UInt8} (hc : Tail c) : b ≠ c := by
    rintro rfl
    have h₁ : 0x80 ≤ b.toNat := hc.1
    have h₂ : b.toNat ≤ 0x7f := hascii
    omega
  have hlead {a : UInt8} (ha : 0xc2 ≤ a) : b ≠ a := by
    rintro rfl
    have h₁ : 0xc2 ≤ b.toNat := ha
    have h₂ : b.toNat ≤ 0x7f := hascii
    omega
  cases h with
  | one _ => rw [List.mem_singleton.mp hb]
  | two h₁ _ hc => simp [hlead h₁, htail hc] at hb
  | three h₁ _ hc hd => simp [hlead (UInt8.le_trans (by decide) h₁), htail hc.1, htail hd] at hb
  | four h₁ _ hc hd he =>
    simp [hlead (UInt8.le_trans (by decide) h₁), htail hc.1, htail hd, htail he] at hb

lemma WellFormed.split (h : WellFormed (bytes ++ b :: rest)) (hascii : b ≤ 0x7f) :
    WellFormed bytes ∧ WellFormed rest := by
  obtain ⟨cs, hcs⟩ := h
  induction cs generalizing bytes with
  | nil => simp at hcs
  | cons c cs ih =>
    have hc := encoded_utf8EncodeChar c
    rw [List.flatMap_cons] at hcs
    rcases List.append_eq_append_iff.mp hcs with ⟨as, rfl, hrest⟩ | ⟨bs, hchar, hrest⟩
    · obtain ⟨h₁, h₂⟩ := ih hrest
      exact ⟨h₁.cons hc, h₂⟩
    · cases bs with
      | nil =>
        rw [List.append_nil] at hchar
        exact ⟨hchar ▸ hc.wellFormed, (ih (show _ = [] ++ _ from hrest.symm)).2⟩
      | cons b' bs =>
        obtain ⟨rfl, rfl⟩ := List.cons.inj hrest
        have hone := hc.eq_singleton (hchar ▸ by simp) hascii
        rw [hone] at hchar
        obtain ⟨rfl, hbs⟩ : bytes = [] ∧ bs = [] := by
          have hlen := congrArg List.length hchar
          simp only [List.length_append, List.length_cons, List.length_nil] at hlen
          exact ⟨List.eq_nil_of_length_eq_zero (by omega), List.eq_nil_of_length_eq_zero (by omega)⟩
        rw [hbs]
        exact ⟨wellFormed_nil, cs, rfl⟩

/-- The beginning of a text may end inside of a character. -/
lemma WellFormed.cut (h : WellFormed (bytes ++ rest)) : WellFormed bytes ∨
    ∃ front part more, bytes = front ++ part ∧ WellFormed front ∧ part ≠ [] ∧ more ≠ [] ∧
      Encoded (part ++ more) := by
  obtain ⟨cs, hcs⟩ := h
  induction cs generalizing bytes with
  | nil =>
    obtain ⟨rfl, -⟩ := List.append_eq_nil_iff.mp hcs.symm
    exact .inl wellFormed_nil
  | cons c cs ih =>
    have hc := encoded_utf8EncodeChar c
    rw [List.flatMap_cons] at hcs
    rcases List.append_eq_append_iff.mp hcs with ⟨as, rfl, hrest⟩ | ⟨bs, hchar, -⟩
    · rcases ih hrest with has | ⟨front, part, more, rfl, hfront, hpart⟩
      · exact .inl (has.cons hc)
      · exact .inr ⟨_, part, more, (List.append_assoc _ _ _).symm, hfront.cons hc, hpart⟩
    · by_cases hbytes : bytes = []
      · exact .inl (hbytes ▸ wellFormed_nil)
      by_cases hbs : bs = []
      · rw [hbs, List.append_nil] at hchar
        exact .inl (hchar ▸ hc.wellFormed)
      · exact .inr ⟨[], bytes, bs, rfl, wellFormed_nil, hbytes, hbs, hchar ▸ hc⟩

lemma Encoded.not_ascii {part : List UInt8} (h : Encoded (part ++ rest)) (hpart : part ≠ [])
    (hrest : rest ≠ []) (hb : b ∈ part ++ rest) : ¬b ≤ 0x7f := by
  intro hascii
  have hlength := congrArg List.length (h.eq_singleton hb hascii)
  have hpart := List.length_pos_iff.mpr hpart
  have hrest := List.length_pos_iff.mpr hrest
  rw [List.length_append, List.length_singleton] at hlength
  omega

end Texts

end Embedjson.Foundations.Utf8
