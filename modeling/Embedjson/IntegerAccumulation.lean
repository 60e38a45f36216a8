import Embedjson.Lexer.NumberFields

namespace Embedjson

open Foundations Foundations.Program

inductive Expr where
  | const (n : ℤ)
  | add (x y : Expr)
  | sub (x y : Expr)
  | mul (x y : Expr)
  | div (x y : Expr)

namespace Expr

def value : Expr → ℤ
  | const n => n
  | add x y => x.value + y.value
  | sub x y => x.value - y.value
  | mul x y => x.value * y.value
  | div x y => x.value.tdiv y.value

/-- The values of all subexpressions, in the order of their evaluation. -/
def values : Expr → List ℤ
  | const n => [n]
  | add x y => x.values ++ y.values ++ [x.value + y.value]
  | sub x y => x.values ++ y.values ++ [x.value - y.value]
  | mul x y => x.values ++ y.values ++ [x.value * y.value]
  | div x y => x.values ++ y.values ++ [x.value.tdiv y.value]

def Within (cfg : Config) (e : Expr) : Prop :=
  ∀ x ∈ e.values, -cfg.intMax - 1 ≤ x ∧ x ≤ cfg.intMax

end Expr

def zeroChar : ℤ := '0'.toNat

/-- `EMBEDJSON_INT_MAX / 10 - *data + '0'`. -/
def guardExpr (cfg : Config) (b : UInt8) : Expr :=
  .add (.sub (.div (.const cfg.intMax) (.const 10)) (.const b.toNat)) (.const zeroChar)

/-- `10 * lex.int_value + *data - '0'`. -/
def accumulateExpr (lex : Lexer) (b : UInt8) : Expr :=
  .sub (.add (.mul (.const 10) (.const lex.intValue)) (.const b.toNat)) (.const zeroChar)

/-- `0 - lex.int_value`. -/
def negateExpr (lex : Lexer) : Expr := .sub (.const 0) (.const lex.intValue)

/-- The expressions that one dispatch of `b` evaluates in the two states. -/
def expressions (cfg : Config) (lex : Lexer) (b : UInt8) : List Expr :=
  match lex.state with
  | .inNumberSign => if isDigit b then [accumulateExpr lex b] else []
  | .inNumber =>
    if isDigit b then
      if lex.intValue = 0 then []
      else if lex.intValue > (guardExpr cfg b).value then [guardExpr cfg b]
      else [guardExpr cfg b, accumulateExpr lex b]
    else if b = '.'.toUInt8 ∨ b = 'e'.toUInt8 ∨ b = 'E'.toUInt8 then []
    else if lex.minus then [negateExpr lex] else []
  | _ => []

def finalExpressions (lexer : Lexer) : List Expr :=
  match lexer.state with
  | .inNumber => if lexer.minus then [negateExpr lexer] else []
  | _ => []

/-- A digit that the guard lets through, less than five below the limit. -/
def NearLimit (cfg : Config) (lex : Lexer) (b : UInt8) : Prop :=
  lex.state = .inNumber ∧ isDigit b = true ∧ digit b ≤ cfg.intMax / 10 - lex.intValue ∧
    cfg.intMax / 10 - lex.intValue ≤ 4

instance (cfg : Config) (lex : Lexer) (b : UInt8) : Decidable (NearLimit cfg lex b) :=
  inferInstanceAs (Decidable (_ ∧ _ ∧ _ ∧ _))

variable {δ : Type} {cfg : Config} {lex : Lexer} {b : UInt8}

section Values

lemma within_const {n : ℤ} (h : -cfg.intMax - 1 ≤ n) (h' : n ≤ cfg.intMax) :
    (Expr.const n).Within cfg := by
  intro x hx
  cases List.mem_singleton.mp hx
  exact ⟨h, h'⟩

lemma within_append {l m : List ℤ} {n : ℤ} :
    (∀ x ∈ l ++ m ++ [n], -cfg.intMax - 1 ≤ x ∧ x ≤ cfg.intMax) ↔
      (∀ x ∈ l, -cfg.intMax - 1 ≤ x ∧ x ≤ cfg.intMax) ∧
        (∀ x ∈ m, -cfg.intMax - 1 ≤ x ∧ x ≤ cfg.intMax) ∧ -cfg.intMax - 1 ≤ n ∧ n ≤ cfg.intMax := by
  simp only [List.forall_mem_append, List.forall_mem_singleton, and_assoc]

variable (hbits : 8 ≤ cfg.intBits)

include hbits

lemma guardExpr_value (hb : isDigit b = true) :
    (guardExpr cfg b).value = cfg.toInt (cfg.intMax / 10 - digit b) := by
  have hlarge := intMax_large hbits
  rw [toInt_guard hbits hb, digit]
  change cfg.intMax.tdiv 10 - (b.toNat : ℤ) + 48 = _
  rw [Int.tdiv_eq_ediv_of_nonneg (by omega)]
  ring

lemma guardExpr_within (hb : isDigit b = true) : (guardExpr cfg b).Within cfg := by
  have hlarge := intMax_large hbits
  obtain ⟨hdigit, hdigit'⟩ := digit_range hb
  rw [digit] at hdigit hdigit'
  have hdiv : cfg.intMax.tdiv 10 = cfg.intMax / 10 := Int.tdiv_eq_ediv_of_nonneg (by omega)
  have hquot : (Expr.div (.const cfg.intMax) (.const 10)).Within cfg := by
    refine within_append.mpr ⟨within_const (by omega) le_rfl, within_const (by omega) (by omega), ?_⟩
    change _ ≤ cfg.intMax.tdiv 10 ∧ cfg.intMax.tdiv 10 ≤ _
    omega
  refine within_append.mpr ⟨within_append.mpr ⟨hquot, within_const (by omega) (by omega), ?_⟩,
    within_const ?_ ?_, ?_⟩
  · change _ ≤ cfg.intMax.tdiv 10 - (b.toNat : ℤ) ∧ cfg.intMax.tdiv 10 - (b.toNat : ℤ) ≤ _
    omega
  · change _ ≤ (48 : ℤ)
    omega
  · change (48 : ℤ) ≤ _
    omega
  · change _ ≤ cfg.intMax.tdiv 10 - (b.toNat : ℤ) + 48 ∧ cfg.intMax.tdiv 10 - (b.toNat : ℤ) + 48 ≤ _
    omega

/-- The largest of the partial sums decides. -/
lemma accumulateExpr_within_iff (hb : isDigit b = true) (hv : 0 ≤ lex.intValue)
    (hmax : lex.intValue ≤ cfg.intMax) :
    (accumulateExpr lex b).Within cfg ↔ 10 * lex.intValue + b.toNat ≤ cfg.intMax := by
  have hlarge := intMax_large hbits
  obtain ⟨hdigit, hdigit'⟩ := digit_range hb
  rw [digit] at hdigit hdigit'
  constructor
  · intro h
    exact (within_append.mp (within_append.mp h).1).2.2.2
  · intro h
    have hproduct : (Expr.mul (.const 10) (.const lex.intValue)).Within cfg := by
      refine within_append.mpr ⟨within_const (by omega) (by omega), within_const (by omega) hmax, ?_⟩
      change _ ≤ 10 * lex.intValue ∧ 10 * lex.intValue ≤ _
      omega
    refine within_append.mpr ⟨within_append.mpr ⟨hproduct, within_const (by omega) (by omega), ?_⟩,
      within_const ?_ ?_, ?_⟩
    · change _ ≤ 10 * lex.intValue + (b.toNat : ℤ) ∧ 10 * lex.intValue + (b.toNat : ℤ) ≤ _
      omega
    · change _ ≤ (48 : ℤ)
      omega
    · change (48 : ℤ) ≤ _
      omega
    · change _ ≤ 10 * lex.intValue + (b.toNat : ℤ) - 48 ∧ 10 * lex.intValue + (b.toNat : ℤ) - 48 ≤ _
      omega

lemma negateExpr_within (h : InRange cfg lex) : (negateExpr lex).Within cfg := by
  have hlarge := intMax_large hbits
  obtain ⟨hv, hmax⟩ := h
  refine within_append.mpr ⟨within_const (by omega) (by omega), within_const (by omega) hmax, ?_⟩
  change _ ≤ 0 - lex.intValue ∧ 0 - lex.intValue ≤ _
  omega

end Values

section Steps

variable (hwidth : cfg.intBits = 32 ∨ cfg.intBits = 64 ∨ cfg.intBits = 128)

include hwidth

lemma intMax_emod : cfg.intMax % 10 = 7 := by
  rw [Config.intMax]
  rcases hwidth with h | h | h <;> rw [h] <;> norm_num

lemma eight_le_intBits : 8 ≤ cfg.intBits := by omega

lemma digit_within_iff (hb : isDigit b = true) (h : InRange cfg lex) :
    (∀ e ∈ if lex.intValue = 0 then []
        else if lex.intValue > (guardExpr cfg b).value then [guardExpr cfg b]
        else [guardExpr cfg b, accumulateExpr lex b], e.Within cfg) ↔
      ¬(digit b ≤ cfg.intMax / 10 - lex.intValue ∧ cfg.intMax / 10 - lex.intValue ≤ 4) := by
  have hbits := eight_le_intBits hwidth
  have hmod := intMax_emod hwidth
  have hlarge := intMax_large hbits
  have hdigit := digit_range hb
  have hvalue : digit b = b.toNat - 48 := rfl
  have hguard : (guardExpr cfg b).value = cfg.intMax / 10 - digit b := by
    rw [guardExpr_value hbits hb, toInt_guard hbits hb]
  have hwithin := guardExpr_within hbits hb
  obtain ⟨hv, hmax⟩ := h
  by_cases hzero : lex.intValue = 0
  · rw [if_pos hzero]
    exact iff_of_true (by simp) (by omega)
  by_cases hgt : lex.intValue > (guardExpr cfg b).value
  · rw [if_neg hzero, if_pos hgt, List.forall_mem_singleton]
    exact iff_of_true hwithin (by omega)
  · rw [if_neg hzero, if_neg hgt, List.forall_mem_cons, List.forall_mem_singleton,
      accumulateExpr_within_iff hbits hb hv hmax, and_iff_right hwithin]
    omega

lemma expressions_within_iff (htidy : Tidy cfg lex) (b : UInt8) :
    (∀ e ∈ expressions cfg lex b, e.Within cfg) ↔ ¬NearLimit cfg lex b := by
  have hbits := eight_le_intBits hwidth
  have hlarge := intMax_large hbits
  rw [expressions, NearLimit]
  cases hs : lex.state with
  | inNumberSign =>
    simp only [Tidy, hs] at htidy
    refine iff_of_true ?_ fun hnear => absurd hnear.1 (by decide)
    by_cases hb : isDigit b = true
    · obtain ⟨-, hdigit⟩ := digit_range hb
      rw [digit] at hdigit
      dsimp only
      rw [if_pos hb, List.forall_mem_singleton,
        accumulateExpr_within_iff hbits hb (by omega) (by omega)]
      omega
    · simp [hb]
  | inNumber =>
    simp only [Tidy, hs] at htidy
    dsimp only
    by_cases hb : isDigit b = true
    · rw [if_pos hb, digit_within_iff hwidth hb htidy.1]
      simp only [hb, true_and]
    · rw [if_neg hb]
      refine iff_of_true ?_ fun hnear => hb hnear.2.1
      split_ifs <;> simp [negateExpr_within hbits htidy.1]
  | _ => exact iff_of_true (by simp) fun hnear => absurd hnear.1 (by decide)

lemma finalExpressions_within (htidy : Tidy cfg lex) : ∀ e ∈ finalExpressions lex, e.Within cfg := by
  rw [finalExpressions]
  cases hs : lex.state with
  | inNumber =>
    simp only [Tidy, hs] at htidy
    dsimp only
    split_ifs <;> simp [negateExpr_within (eight_le_intBits hwidth) htidy.1]
  | _ => simp

variable [DoubleArith δ]

variable (δ) in
theorem accumulation_within_iff (input : List UInt8) :
    ((∀ lexer b rest, Meets δ cfg input lexer (b :: rest) →
        ∀ e ∈ expressions cfg lexer b, e.Within cfg) ∧
      ∀ lexer, Meets δ cfg input lexer [] → ∀ e ∈ finalExpressions lexer, e.Within cfg) ↔
      ∀ lexer b rest, Meets δ cfg input lexer (b :: rest) → ¬NearLimit cfg lexer b := by
  have hbits := eight_le_intBits hwidth
  constructor
  · intro h lexer b rest hmeets
    exact (expressions_within_iff hwidth (hmeets.tidy hbits) b).mp (h.1 lexer b rest hmeets)
  · intro h
    refine ⟨fun lexer b rest hmeets => ?_, fun lexer hmeets => ?_⟩
    · exact (expressions_within_iff hwidth (hmeets.tidy hbits) b).mpr (h lexer b rest hmeets)
    · exact finalExpressions_within hwidth (hmeets.tidy hbits)

end Steps

def underLimit : List UInt8 := "922337203685477580".toList.map Char.toUInt8

def atUnderLimit : Lexer :=
  { Lexer.zero with
    state := .inNumber, intValue := 922337203685477580, encoding := .utf8, magicBytesRead := 4
    magic := #v[0x39, 0x32, 0x32, 0x33] }

/-- The last digit of `9223372036854775800`, a value that fits 64 bits. -/
theorem accumulation_overflows :
    Meets ℚ .default (underLimit ++ ['0'.toUInt8]) atUnderLimit ['0'.toUInt8] ∧
      accumulateExpr atUnderLimit '0'.toUInt8 ∈ expressions .default atUnderLimit '0'.toUInt8 ∧
      ¬(accumulateExpr atUnderLimit '0'.toUInt8).Within .default := by
  refine ⟨⟨[underLimit], [], rfl, by decide +kernel⟩, ?_, fun h => ?_⟩
  · exact List.mem_cons_of_mem _ (List.mem_singleton.mpr rfl)
  · have hsum := (h (10 * 922337203685477580 + 48) (by decide)).2
    exact absurd hsum (by decide)

def staysFar (input : List UInt8) : Bool :=
  (List.range input.length).all fun n =>
    ((scanner (δ := ℚ) .default).run ⟨.zero, 0⟩ (input.take n)).2.toOption.all fun s =>
      (input.drop n).head?.all fun b => !NearLimit .default s.lex b

lemma not_nearLimit_of_staysFar {input : List UInt8} (h : staysFar input = true) {lexer : Lexer}
    {b : UInt8} {rest : List UInt8} (hmeets : Meets ℚ .default input lexer (b :: rest)) :
    ¬NearLimit .default lexer b := by
  obtain ⟨chunks, l, rfl, hpush⟩ := hmeets
  obtain ⟨calls, index, hrun⟩ := scanner_reached 0 hpush
  have hlength : chunks.flatten.length < (chunks.flatten ++ b :: rest).length := by simp
  have hlast := List.all_eq_true.mp h _ (List.mem_range.mpr hlength)
  rw [List.take_left, List.drop_left, hrun] at hlast
  simpa [Except.toOption] using hlast

/-- With the last digit the sum of `10 * lex.int_value` and the byte is four below the limit. -/
def highestSafe : List UInt8 := "-9223372036854775755".toList.map Char.toUInt8

def atHighestSafe : Lexer :=
  { Lexer.zero with
    state := .inNumber, intValue := 9223372036854775755, minus := true, encoding := .utf8
    magicBytesRead := 4, magic := #v[0x2d, 0x39, 0x32, 0x32] }

theorem accumulation_within_iff_highest :
    Meets ℚ .default highestSafe atHighestSafe [] ∧
      ∀ e ∈ finalExpressions atHighestSafe, e.Within .default := by
  have hmeets : Meets ℚ .default highestSafe atHighestSafe [] :=
    ⟨[highestSafe], [], List.append_nil _, by decide +kernel⟩
  have hfar : staysFar highestSafe = true := by decide +kernel
  have hwithin := ((accumulation_within_iff ℚ (.inr (.inl rfl)) _).mpr
    fun _ _ _ => not_nearLimit_of_staysFar hfar).2 _ hmeets
  exact ⟨hmeets, hwithin⟩

end Embedjson
