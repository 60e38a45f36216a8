import Embedjson.Lexer.NumberFields

namespace Embedjson

def Digits (ds : List UInt8) : Prop := ∀ b ∈ ds, isDigit b = true

/-- The integer part of a number: `0`, or digits that begin with another one. -/
structure IsInt (ds : List UInt8) : Prop where
  digits : Digits ds
  ne_nil : ds ≠ []
  lead : ds.head? = some '0'.toUInt8 → ds = ['0'.toUInt8]

def decimal (ds : List UInt8) : ℤ := ds.foldl (fun v b => 10 * v + digit b) 0

def minusText (minus : Bool) : List UInt8 := if minus then ['-'.toUInt8] else []

structure Mantissa where
  minus : Bool
  int : List UInt8
  frac : Option (List UInt8)
  isInt : IsInt int
  isFrac : ∀ ds ∈ frac, Digits ds ∧ ds ≠ []

structure Exponent where
  letter : UInt8
  sign : Option UInt8
  digits : List UInt8
  isLetter : letter = 'e'.toUInt8 ∨ letter = 'E'.toUInt8
  isSign : ∀ b ∈ sign, b = '+'.toUInt8 ∨ b = '-'.toUInt8
  isDigits : Digits digits ∧ digits ≠ []

lemma isFrac_none : ∀ ds ∈ (none : Option (List UInt8)), Digits ds ∧ ds ≠ [] := nofun

lemma isSign_none : ∀ b ∈ (none : Option UInt8), b = '+'.toUInt8 ∨ b = '-'.toUInt8 := nofun

structure Numeral extends Mantissa where
  exp : Option Exponent

def fracText : Option (List UInt8) → List UInt8
  | none => []
  | some ds => '.'.toUInt8 :: ds

def Mantissa.text (m : Mantissa) : List UInt8 := minusText m.minus ++ m.int ++ fracText m.frac

def Exponent.text (e : Exponent) : List UInt8 := e.letter :: e.sign.toList ++ e.digits

def Numeral.text (n : Numeral) : List UInt8 := n.toMantissa.text ++ n.exp.elim [] Exponent.text

def signed (minus : Bool) (v : ℤ) : ℤ := if minus then -v else v

def delimiters : List UInt8 := " \n\r\t:,{}[]".toList.map Char.toUInt8

/-- Whether the guard of `lex.int_value` lets all digits through. -/
def FitsInt (cfg : Config) (ds : List UInt8) : Prop :=
  decimal ds / 10 + decimal ds % 10 ≤ cfg.intMax / 10

variable {cfg : Config} {ds p q : List UInt8} {b : UInt8}

section Decimal

@[simp] lemma decimal_nil : decimal [] = 0 := rfl

@[simp] lemma decimal_concat (ds : List UInt8) (b : UInt8) :
    decimal (ds ++ [b]) = 10 * decimal ds + digit b := by
  simp [decimal]

lemma digits_append : Digits (p ++ q) ↔ Digits p ∧ Digits q := List.forall_mem_append

lemma digits_singleton : Digits [b] ↔ isDigit b = true := List.forall_mem_singleton

lemma decimal_nonneg (h : Digits ds) : 0 ≤ decimal ds := by
  induction ds using List.reverseRecOn with
  | nil => exact le_rfl
  | append_singleton ds b ih =>
    obtain ⟨hds, hb⟩ := digits_append.mp h
    have hdigit := digit_range (digits_singleton.mp hb)
    have hvalue := ih hds
    rw [decimal_concat]
    omega

lemma decimal_lt (h : Digits ds) : decimal ds < 10 ^ ds.length := by
  induction ds using List.reverseRecOn with
  | nil => exact Int.zero_lt_one
  | append_singleton ds b ih =>
    obtain ⟨hds, hb⟩ := digits_append.mp h
    have hdigit := digit_range (digits_singleton.mp hb)
    have hvalue := ih hds
    rw [decimal_concat, List.length_append, List.length_singleton, pow_succ]
    omega

lemma decimal_append_le (hp : Digits p) (hq : Digits q) : decimal p ≤ decimal (p ++ q) := by
  induction q using List.reverseRecOn with
  | nil => rw [List.append_nil]
  | append_singleton q b ih =>
    obtain ⟨hq, hb⟩ := digits_append.mp hq
    have hdigit := digit_range (digits_singleton.mp hb)
    have hvalue := decimal_nonneg hp
    have hle := ih hq
    rw [← List.append_assoc, decimal_concat]
    omega

lemma decimal_concat_le (hp : Digits p) (hq : Digits (b :: q)) :
    10 * decimal p + digit b ≤ decimal (p ++ b :: q) := by
  obtain ⟨hb, hq⟩ := List.forall_mem_cons.mp hq
  have hpb : Digits (p ++ [b]) := digits_append.mpr ⟨hp, digits_singleton.mpr hb⟩
  have hle := decimal_append_le hpb hq
  rwa [decimal_concat, List.append_assoc] at hle

end Decimal

section Integers

lemma isInt_singleton (hb : isDigit b = true) : IsInt [b] := by
  refine ⟨digits_singleton.mpr hb, List.cons_ne_nil _ _, fun h => ?_⟩
  rw [List.head?_cons, Option.some.injEq] at h
  rw [h]

lemma IsInt.concat (h : IsInt ds) (hne : decimal ds ≠ 0) (hb : isDigit b = true) :
    IsInt (ds ++ [b]) := by
  refine ⟨digits_append.mpr ⟨h.digits, digits_singleton.mpr hb⟩, by simp, fun hhead => ?_⟩
  rw [List.head?_append_of_ne_nil _ h.ne_nil] at hhead
  rw [h.lead hhead] at hne
  exact absurd rfl hne

lemma digit_ne_zero (hb : isDigit b = true) (hne : b ≠ '0'.toUInt8) : 0 < digit b := by
  have hdigit := digit_range hb
  have hnat : b.toNat ≠ 48 := fun h => hne (UInt8.toNat_inj.mp h)
  rw [digit] at hdigit ⊢
  omega

lemma IsInt.of_append (h : IsInt (p ++ b :: q)) (hp : p ≠ []) : IsInt p := by
  refine ⟨(digits_append.mp h.digits).1, hp, fun hhead => ?_⟩
  have hall := congrArg List.length (h.lead (by rw [List.head?_append_of_ne_nil _ hp, hhead]))
  have hpos := List.length_pos_iff.mpr hp
  rw [List.length_append, List.length_cons, List.length_singleton] at hall
  omega

lemma IsInt.decimal_ne_zero (h : IsInt (p ++ b :: q)) (hp : p ≠ []) : decimal p ≠ 0 := by
  obtain ⟨c, r, rfl⟩ := List.exists_cons_of_ne_nil hp
  obtain ⟨hdigits, -⟩ := digits_append.mp h.digits
  obtain ⟨hc, hr⟩ := List.forall_mem_cons.mp hdigits
  have hlead : c ≠ '0'.toUInt8 := by
    rintro rfl
    have hall := congrArg List.length (h.lead rfl)
    simp at hall
  have hpos := digit_ne_zero hc hlead
  have hle : decimal [c] ≤ decimal (c :: r) := decimal_append_le (digits_singleton.mpr hc) hr
  have hone : decimal [c] = digit c := zero_add _
  omega

lemma fitsInt_concat (hp : Digits p) (hb : isDigit b = true) :
    FitsInt cfg (p ++ [b]) ↔ decimal p ≤ cfg.intMax / 10 - digit b := by
  have hdigit := digit_range hb
  have hvalue := decimal_nonneg hp
  rw [FitsInt, decimal_concat]
  omega

lemma fitsInt_singleton (hbits : 8 ≤ cfg.intBits) (hb : isDigit b = true) : FitsInt cfg [b] := by
  have hlarge := intMax_large hbits
  have hdigit := digit_range hb
  have hempty : Digits [] := List.forall_mem_nil _
  refine (fitsInt_concat hempty hb).mpr ?_
  rw [decimal_nil]
  omega

lemma FitsInt.of_append (h : FitsInt cfg (p ++ q)) (hp : Digits p) (hq : Digits q) :
    FitsInt cfg p := by
  cases q with
  | nil => rwa [List.append_nil] at h
  | cons b q =>
    have hle := decimal_concat_le hp hq
    have hdigit := digit_range (List.forall_mem_cons.mp hq).1
    have hvalue := decimal_nonneg hp
    rw [FitsInt] at h ⊢
    omega

lemma exists_longest_fit (hbits : 8 ≤ cfg.intBits) (hds : Digits ds) (hne : ds ≠ [])
    (hfits : ¬FitsInt cfg ds) :
    ∃ p b q, ds = p ++ b :: q ∧ p ≠ [] ∧ FitsInt cfg p ∧ ¬FitsInt cfg (p ++ [b]) := by
  induction ds using List.reverseRecOn with
  | nil => exact absurd rfl hne
  | append_singleton ds b ih =>
    obtain ⟨hds, hb⟩ := digits_append.mp hds
    by_cases hempty : ds = []
    · rw [hempty] at hfits
      exact absurd (fitsInt_singleton hbits (digits_singleton.mp hb)) hfits
    by_cases hrest : FitsInt cfg ds
    · exact ⟨ds, b, [], rfl, hempty, hrest, hfits⟩
    · obtain ⟨p, c, q, rfl, hp, hfit, hnot⟩ := ih hds hempty hrest
      exact ⟨p, c, q ++ [b], by simp, hp, hfit, hnot⟩

end Integers

end Embedjson
