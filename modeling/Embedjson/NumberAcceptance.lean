import Embedjson.IntegerRange

namespace Embedjson

open Foundations Foundations.Program

variable {δ : Type} [DoubleArith δ] {cfg : Config} {lexer : Lexer} {s : Scan} {b d : UInt8}

inductive NumberCalls (last : Pointer) : List (LexerCall δ) → Prop
  | integer (v : ℤ) : NumberCalls last [.tokeni v last]
  | double (x : δ) : NumberCalls last [.tokenf x last]
  | bignum (first : Pointer) (v : ℤ) (bytes : List UInt8) :
      NumberCalls last (.tokenbnBegin first v :: bytes.map bignumCall ++ [.tokenbnEnd last])

/-- The pushes succeed, and the calls are those of one number and of the delimiter behind it. -/
def AcceptsNumber (δ : Type) [DoubleArith δ] (cfg : Config) (lexer : Lexer)
    (chunks : List (List UInt8)) (size : ℕ) (d : UInt8) : Prop :=
  (∃ lexer', (observe LexerCall.isError (lexerPushAll (δ := δ) cfg lexer chunks)).2 =
      some (0, lexer')) ∧
    ∃ number : List (LexerCall δ), NumberCalls (.buffer (size - 1)) number ∧
      trace cfg lexer 0 chunks = number ++ delimiterCalls d (.buffer size)

def Exponent.negative (e : Exponent) : Bool := e.sign = some '-'.toUInt8

/-- Neither the 16 bits of `frac_power` nor the limit of the exponent is exceeded. -/
structure Numeral.Bounded (n : Numeral) : Prop where
  frac : ∀ fs ∈ n.frac, fs.length % 2 ^ 16 ≠ 0
  exp : ∀ e ∈ n.exp, decimal e.digits ≤ expLimit e.negative

def AtMantissa (cfg : Config) (m : Mantissa) (lex : Lexer) : Prop :=
  match m.frac with
  | none => AtInt cfg m.minus m.int lex
  | some fs => AtFrac cfg fs lex

section Outcomes

variable {chunks : List (List UInt8)} {calls : List (LexerCall δ)} {P : Lexer → Prop}

lemma Rejects.refused {code : ErrorCode} (h : Rejects cfg ⟨lexer, 0⟩ chunks.flatten calls code)
    (size : ℕ) (d : UInt8) : ¬AcceptsNumber δ cfg lexer chunks size d := by
  rintro ⟨⟨lexer', hok⟩, -⟩
  have htells := lexerPushAll_tells (δ := δ) cfg lexer 0 chunks
  rw [Rejects] at h
  rw [h] at htells
  rw [htells.1] at hok
  cases hok

end Outcomes

section Runs

variable (hbits : 8 ≤ cfg.intBits)

include hbits

section Mantissas

variable {m : Mantissa}

lemma moves_mantissa (h : AtLookup cfg s.lex) (m : Mantissa) (hfits : FitsInt cfg m.int) :
    Moves cfg s m.text ([] : List (LexerCall δ)) (AtMantissa cfg m) := by
  have hint : Moves (δ := δ) cfg s (minusText m.minus ++ m.int) [] (AtInt cfg m.minus m.int) :=
    moves_integer hbits h m.isInt hfits m.minus
  rw [Mantissa.text]
  cases hfrac : m.frac with
  | none =>
    have heq : AtMantissa cfg m = AtInt cfg m.minus m.int := by
      funext lex
      rw [AtMantissa, hfrac]
    rw [fracText, List.append_nil, heq]
    exact hint
  | some fs =>
    have hpoint {s : Scan} (h : AtInt cfg m.minus m.int s.lex) :
        Moves (δ := δ) cfg s ['.'.toUInt8] [] (AtFrac cfg []) := by
      obtain ⟨lex, hreact, hlex⟩ := (h.recordMagic '.'.toUInt8).point (δ := δ) hbits s.index
      exact moves_one hreact hlex
    have heq : AtMantissa cfg m = AtFrac cfg fs := by
      funext lex
      rw [AtMantissa, hfrac]
    rw [heq]
    have hdigits {s : Scan} (h : AtFrac cfg [] s.lex) :
        Moves (δ := δ) cfg s fs [] (AtFrac cfg fs) := moves_frac hbits h (m.isFrac fs hfrac).1
    exact hint.append fun lex hlex => (hpoint hlex).append fun lex hlex => hdigits hlex

lemma moves_letter (h : AtMantissa cfg m s.lex) (hfrac : ∀ fs ∈ m.frac, fs.length % 2 ^ 16 ≠ 0)
    (hb : b = 'e'.toUInt8 ∨ b = 'E'.toUInt8) :
    Moves cfg s [b] ([] : List (LexerCall δ)) (AtExpSign cfg) := by
  rw [AtMantissa] at h
  cases hm : m.frac with
  | none =>
    rw [hm] at h
    obtain ⟨lex, hreact, hlex⟩ := (h.recordMagic b).letter (δ := δ) hbits hb s.index
    exact moves_one hreact hlex
  | some fs =>
    rw [hm] at h
    obtain ⟨lex, hreact, hlex⟩ := (h.recordMagic b).letter (δ := δ) hbits hb (hfrac fs hm) s.index
    exact moves_one hreact hlex

omit hbits in
/-- A fraction whose number of digits is a multiple of 65536 is taken for an empty one. -/
lemma rejects_frac (h : AtMantissa cfg m s.lex) (hfrac : ¬∀ fs ∈ m.frac, fs.length % 2 ^ 16 ≠ 0)
    (hb : ¬isDigit b = true) (ys : List UInt8) :
    Rejects cfg s (b :: ys) ([] : List (LexerCall δ)) .emptyFrac := by
  push Not at hfrac
  obtain ⟨fs, hm, hfs⟩ := hfrac
  rw [AtMantissa, hm] at h
  exact rejects_cons ((h.recordMagic b).empty hb hfs s.index) ys

end Mantissas

section Exponents

lemma moves_sign (h : AtExpSign cfg s.lex) (e : Exponent) : ∃ x p q,
    e.sign.toList ++ e.digits = [x] ++ q ∧ e.digits = p ++ q ∧ decimal p ≤ expLimit e.negative ∧
      Moves cfg s [x] ([] : List (LexerCall δ)) (AtExp cfg e.negative p) := by
  rw [Exponent.negative]
  cases hsign : e.sign with
  | none =>
    obtain ⟨hdigits, hne⟩ := e.isDigits
    obtain ⟨c, r, hcr⟩ := List.exists_cons_of_ne_nil hne
    rw [hcr] at hdigits
    have hc := (List.forall_mem_cons.mp hdigits).1
    obtain ⟨lex, hreact, hlex⟩ := (h.recordMagic c).firstDigit (δ := δ) hbits hc s.index
    refine ⟨c, [c], r, hcr, hcr, ?_, moves_one hreact hlex⟩
    have hdigit := digit_range hc
    change 10 * 0 + digit c ≤ 308
    omega
  | some b =>
    rcases e.isSign b hsign with rfl | rfl
    · obtain ⟨lex, hreact, hlex⟩ := (h.recordMagic '+'.toUInt8).pushPlus (δ := δ) hbits s.index
      exact ⟨_, [], e.digits, rfl, rfl, by decide, moves_one hreact hlex⟩
    · obtain ⟨lex, hreact, hlex⟩ := (h.recordMagic '-'.toUInt8).pushMinus (δ := δ) hbits s.index
      exact ⟨_, [], e.digits, rfl, rfl, by decide, moves_one hreact hlex⟩

lemma rejects_exponent (h : AtExpSign cfg s.lex) (e : Exponent)
    (hlimit : ¬decimal e.digits ≤ expLimit e.negative) :
    Rejects cfg s (e.sign.toList ++ e.digits) ([] : List (LexerCall δ)) .exponentOverflow := by
  obtain ⟨x, p, q, htext, hdigits, hfits, hmoves⟩ := moves_sign (δ := δ) hbits h e
  obtain ⟨hp, hq⟩ := digits_append.mp (hdigits ▸ e.isDigits.1)
  rw [hdigits, not_le] at hlimit
  rw [htext]
  exact hmoves.rejects fun lex hlex => rejects_exp hbits hlex hp hq hfits hlimit

end Exponents

section Fitting

variable (h : AtLookup cfg s.lex) (n : Numeral) (hfits : FitsInt cfg n.int) (hd : d ∈ delimiters)

include h hfits hd

end Fitting

section Oversized

variable (hbignum : cfg.bignum = true) (h : AtLookup cfg s.lex) (n : Numeral)
  (hfits : ¬FitsInt cfg n.int)

include hbignum h hfits

lemma moves_oversized : ∃ p q first v, n.int = p ++ q ∧ Digits q ∧
    Moves cfg s (minusText n.minus ++ p) ([.tokenbnBegin first v] : List (LexerCall δ)) (AtBig cfg) := by
  obtain ⟨p, b, q, hint, hp, hfit, hnot⟩ :=
    exists_longest_fit hbits n.isInt.digits n.isInt.ne_nil hfits
  have hisInt : IsInt (p ++ b :: q) := hint ▸ n.isInt
  have hq : Digits q := fun c hc => hisInt.digits c (by simp [hc])
  refine ⟨p ++ [b], q, .buffer (s.index + (minusText n.minus ++ p).length), decimal p, by simp [hint],
    hq, ?_⟩
  rw [← List.append_assoc]
  exact (moves_integer hbits h (hisInt.of_append hp) hfit n.minus).append fun lex hlex =>
    moves_switch hbits hbignum hlex hisInt hp hnot

end Oversized

end Runs

end Embedjson
