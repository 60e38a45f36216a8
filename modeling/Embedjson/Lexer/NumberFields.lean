import Embedjson.Lexer.Chunking

namespace Embedjson

open Foundations Foundations.Program

variable {δ : Type} {cfg : Config} {lex : Lexer} {b : UInt8}

section Range

variable (hbits : 8 ≤ cfg.intBits)

include hbits

lemma two_pow_intBits : (2 : ℤ) ^ cfg.intBits = 2 * cfg.intMax + 2 := by
  obtain ⟨k, hk⟩ : ∃ k, cfg.intBits = k + 2 := ⟨cfg.intBits - 2, by omega⟩
  rw [Config.intMax, hk, Nat.add_sub_cancel, pow_add]
  ring

lemma intMax_large : 127 ≤ cfg.intMax := by
  have h : (2 : ℤ) ^ 8 ≤ 2 ^ cfg.intBits := pow_le_pow_right₀ (by decide) hbits
  have hmax := two_pow_intBits hbits
  omega

lemma toInt_of_range {x : ℤ} (h : -cfg.intMax - 1 ≤ x) (h' : x ≤ cfg.intMax) : cfg.toInt x = x := by
  have hmax := two_pow_intBits hbits
  rw [Config.toInt]
  apply Int.bmod_eq_of_le_mul_two
  · push_cast
    omega
  · push_cast
    omega

omit hbits in
lemma digit_range (hb : isDigit b = true) : 0 ≤ digit b ∧ digit b ≤ 9 := by
  rw [isDigit, Bool.and_eq_true] at hb
  have h₁ : 48 ≤ b.toNat := UInt8.le_iff_toNat_le.mp (of_decide_eq_true hb.1)
  have h₂ : b.toNat ≤ 57 := UInt8.le_iff_toNat_le.mp (of_decide_eq_true hb.2)
  rw [digit]
  omega

lemma toInt_guard (hb : isDigit b = true) :
    cfg.toInt (cfg.intMax / 10 - digit b) = cfg.intMax / 10 - digit b := by
  have hlarge := intMax_large hbits
  obtain ⟨h₁, h₂⟩ := digit_range hb
  exact toInt_of_range hbits (by omega) (by omega)

lemma toInt_push {v : ℤ} (hb : isDigit b = true) (hv : 0 ≤ v)
    (hguard : v ≤ cfg.intMax / 10 - digit b) : cfg.toInt (10 * v + digit b) = 10 * v + digit b := by
  have hlarge := intMax_large hbits
  obtain ⟨h₁, h₂⟩ := digit_range hb
  exact toInt_of_range hbits (by omega) (by omega)

end Range

def InRange (cfg : Config) (lex : Lexer) : Prop := 0 ≤ lex.intValue ∧ lex.intValue ≤ cfg.intMax

def FracClear (lex : Lexer) : Prop := lex.fracValue = 0 ∧ lex.fracPower = 0

def ExpClear (lex : Lexer) : Prop :=
  lex.expValue = 0 ∧ lex.expMinus = false ∧ lex.expNotEmpty = false

def NumberClear (lex : Lexer) : Prop :=
  lex.intValue = 0 ∧ lex.minus = false ∧ FracClear lex ∧ ExpClear lex

def expLimit (minus : Bool) : ℕ := if minus then 323 else 308

/-- What is left in the fields of a number, by the state of the lexer. -/
def Tidy (cfg : Config) (lex : Lexer) : Prop :=
  match lex.state with
  | .inNumberSign => lex.intValue = 0 ∧ FracClear lex ∧ ExpClear lex
  | .inNumber | .inBigNumber => InRange cfg lex ∧ FracClear lex ∧ ExpClear lex
  | .inNumberFrac | .inNumberExpSign => InRange cfg lex ∧ ExpClear lex
  | .inNumberExp => InRange cfg lex ∧ lex.expValue ≤ expLimit lex.expMinus
  | _ => NumberClear lex

variable (cfg) in
lemma tidy_zero : Tidy cfg .zero := ⟨rfl, rfl, ⟨rfl, rfl⟩, rfl, rfl, rfl⟩

lemma tidy_recordMagic (h : Tidy cfg lex) (b : UInt8) : Tidy cfg (recordMagic lex b) := by
  obtain ⟨_, _, _, heq⟩ := recordMagic_eq lex b
  rw [heq]
  exact h

lemma Tidy.clear (h : Tidy cfg lex) (hs : lex.state = .lookupToken) : NumberClear lex := by
  simpa only [Tidy, hs] using h

section Reactions

variable {at_ before : Pointer}

lemma string_tidy (hs : lex.state = .inString) (h : NumberClear lex) :
    (Reaction.ofString cfg lex at_ b : Reaction δ).Keeps (Tidy cfg) := by
  rw [Reaction.ofString]
  cases hc : checkUtf8 cfg lex b with
  | error code => trivial
  | ok a =>
    obtain ⟨lex', last⟩ := a
    obtain ⟨nb, cc, rfl⟩ := checkUtf8_counters hc
    have hlex : Tidy cfg { lex with nb := nb, cc := cc } := by
      simp only [Tidy, hs]
      exact h
    cases last with
    | false => exact hlex
    | true =>
      exact .ite (fun _ => h) fun _ => .ite (fun _ => h) fun _ => .ite (fun _ => trivial) fun _ => hlex

lemma escape_tidy (h : NumberClear lex) :
    (Reaction.ofEscape lex b : Reaction δ).Keeps (Tidy cfg) := by
  rw [Reaction.ofEscape]
  cases escapeByte b with
  | some e => exact h
  | none => exact .ite (fun _ => h) fun _ => trivial

lemma unicodeEscape_tidy (hs : lex.state = .inStringUnicodeEscape) (h : NumberClear lex) :
    (Reaction.ofUnicodeEscape lex b : Reaction δ).Keeps (Tidy cfg) := by
  rw [Reaction.ofUnicodeEscape]
  cases hexDigit b with
  | none => trivial
  | some value =>
    have hlex : Tidy cfg (pushHexDigit lex value) := by
      simp only [Tidy, pushHexDigit, hs]
      by_cases ho : lex.offset = 3
      · rw [if_pos ho]
        exact h
      · rw [if_neg ho]
        exact h
    exact .ite (fun _ => hlex) fun _ => hlex

lemma expSign_tidy (hrange : InRange cfg lex) (h : ExpClear lex) :
    (Reaction.ofExpSign lex b : Reaction δ).Keeps (Tidy cfg) := by
  obtain ⟨hvalue, hminus, -⟩ := h
  refine .ite (fun _ => ⟨hrange, ?_⟩) fun _ => .ite (fun hb => ⟨hrange, ?_⟩) fun _ =>
    .ite (fun _ => trivial) fun _ => ⟨hrange, ?_⟩
  · change lex.expValue ≤ 323
    omega
  · change (digit b).toNat ≤ expLimit lex.expMinus
    have hdigit := digit_range hb
    rw [hminus]
    simp only [expLimit, Bool.false_eq_true, if_false]
    omega
  · change lex.expValue ≤ expLimit lex.expMinus
    omega

lemma keyword_tidy {keyword : String} {code : ErrorCode} {tok : Tok} {last : ℕ}
    (h : NumberClear lex) (hlex : ∀ offset, Tidy cfg { lex with offset := offset }) :
    (Reaction.ofKeyword keyword code tok last lex at_ b : Reaction δ).Keeps (Tidy cfg) :=
  .ite (fun _ => trivial) fun _ => .ite (fun _ => h) fun _ => hlex _

variable (hbits : 8 ≤ cfg.intBits)

include hbits

lemma lookup_tidy (hs : lex.state = .lookupToken) (h : NumberClear lex) :
    (Reaction.ofLookup lex at_ b : Reaction δ).Keeps (Tidy cfg) := by
  have hlex : Tidy cfg lex := by simpa only [Tidy, hs] using h
  obtain ⟨hint, hminus, hfrac, hexp⟩ := h
  refine .ite (fun _ => hlex) fun _ => ?_
  iterate 6 refine .ite (fun _ => hlex) fun _ => ?_
  iterate 4 refine .ite (fun _ => ⟨hint, hminus, hfrac, hexp⟩) fun _ => ?_
  refine .ite (fun _ => ⟨hint, hfrac, hexp⟩) fun _ => .ite (fun _ => trivial) fun _ => ?_
  refine .ite (fun hb => ⟨?_, hfrac, hexp⟩) fun _ => trivial
  obtain ⟨hdigit, hdigit'⟩ := digit_range hb
  have hlarge := intMax_large hbits
  exact ⟨hdigit, le_trans hdigit' (by omega)⟩

lemma pushIntDigit_inRange (hb : isDigit b = true) (h : 0 ≤ lex.intValue)
    (hguard : lex.intValue ≤ cfg.intMax / 10 - digit b) : InRange cfg (pushIntDigit cfg lex b) := by
  have hpush := toInt_push hbits hb h hguard
  obtain ⟨hdigit, -⟩ := digit_range hb
  simp only [InRange, pushIntDigit, hpush]
  omega

lemma numberSign_tidy (h : lex.intValue = 0) (h' : FracClear lex ∧ ExpClear lex) :
    (Reaction.ofNumberSign cfg lex b : Reaction δ).Keeps (Tidy cfg) := by
  refine .ite (fun hb => ⟨?_, h'⟩) fun _ => trivial
  have hdigit := digit_range hb
  have hlarge := intMax_large hbits
  exact pushIntDigit_inRange hbits hb (by omega) (by omega)

lemma number_tidy (hs : lex.state = .inNumber) (hrange : InRange cfg lex)
    (h : FracClear lex ∧ ExpClear lex) :
    (Reaction.ofNumber cfg lex at_ before b : Reaction δ).Keeps (Tidy cfg) := by
  refine .ite (fun hb => .ite (fun _ => trivial) fun _ => .ite (fun _ => .ite (fun _ => ⟨hrange, h⟩)
    fun _ => trivial) fun hguard => ?_) fun _ => ?_
  · rw [toInt_guard hbits hb] at hguard
    simp only [Reaction.Keeps, Tidy, pushIntDigit, hs]
    exact ⟨pushIntDigit_inRange hbits hb hrange.1 (by omega), h⟩
  · exact .ite (fun _ => ⟨hrange, h.2⟩) fun _ => .ite (fun _ => ⟨hrange, h.2⟩) fun _ => ⟨rfl, rfl, h⟩

variable [DoubleArith δ]

omit hbits in
lemma frac_tidy (hs : lex.state = .inNumberFrac) (hrange : InRange cfg lex) (h : ExpClear lex) :
    (Reaction.ofFrac lex before b : Reaction δ).Keeps (Tidy cfg) := by
  have hdigit : Tidy cfg (pushFracDigit lex b) := by
    simp only [Tidy, pushFracDigit, hs]
    exact ⟨hrange, h⟩
  exact .ite (fun _ => hdigit) fun _ => .ite (fun _ => .ite (fun _ => trivial) fun _ => ⟨hrange, h⟩)
    fun _ => .ite (fun _ => trivial) fun _ => ⟨rfl, rfl, ⟨rfl, rfl⟩, h⟩

omit hbits in
lemma exp_tidy (hs : lex.state = .inNumberExp) (hrange : InRange cfg lex) :
    (Reaction.ofExp lex before b : Reaction δ).Keeps (Tidy cfg) := by
  refine .ite (fun _ => .ite (fun _ => trivial) fun hlimit => ?_) fun _ => .ite (fun _ => trivial)
    fun _ => ⟨rfl, rfl, ⟨rfl, rfl⟩, rfl, rfl, rfl⟩
  have hstate : (pushExpDigit lex b).state = .inNumberExp := hs
  simp only [Reaction.Keeps, Tidy, hstate]
  refine ⟨hrange, ?_⟩
  rw [expLimit]
  cases hm : (pushExpDigit lex b).expMinus <;> simp_all

lemma react_tidy (h : Tidy cfg lex) (index : ℤ) (b : UInt8) :
    (react cfg lex index b : Reaction δ).Keeps (Tidy cfg) := by
  rw [react]
  cases hs : lex.state <;> simp only [Tidy, hs] at h
  case lookupToken => exact lookup_tidy hbits hs h
  case inString => exact string_tidy hs h
  case inStringEscape => exact escape_tidy h
  case inStringUnicodeEscape => exact unicodeEscape_tidy hs h
  case inNumberSign => exact numberSign_tidy hbits h.1 h.2
  case inNumber => exact number_tidy hbits hs h.1 h.2
  case inNumberFrac => exact frac_tidy hs h.1 h.2
  case inNumberExpSign => exact expSign_tidy h.1 h.2
  case inNumberExp => exact exp_tidy hs h.1
  case inBigNumber =>
    refine .ite (fun _ => ?_) fun _ => ⟨rfl, rfl, ⟨rfl, rfl⟩, rfl, rfl, rfl⟩
    simpa only [Reaction.Keeps, Tidy, hs] using h
  case inTrue | inFalse | inNull =>
    refine keyword_tidy h fun offset => ?_
    simp only [Tidy, hs]
    exact h

lemma scanner_run_tidy {s t : Scan} {bytes : List UInt8} {calls : List (LexerCall δ)}
    (h : Tidy cfg s.lex) (hrun : (scanner cfg).run s bytes = (calls, .ok t)) : Tidy cfg t.lex :=
  scanner_run_keeps (P := Tidy cfg) (fun _ b h => tidy_recordMagic h b)
    (fun _ index b h => react_tidy hbits h index b) h hrun

lemma Meets.tidy {input rest : List UInt8} {lexer : Lexer} (h : Meets δ cfg input lexer rest) :
    Tidy cfg lexer := by
  obtain ⟨chunks, l, -, hpush⟩ := h
  obtain ⟨calls, index, hrun⟩ := scanner_reached 0 hpush
  exact scanner_run_tidy hbits (tidy_zero cfg) hrun

end Reactions

end Embedjson
