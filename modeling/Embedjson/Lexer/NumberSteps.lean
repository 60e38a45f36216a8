import Embedjson.Lexer.Numerals

namespace Embedjson

open Foundations Foundations.Program

variable {δ : Type}

def structural (b : UInt8) : Option Tok :=
  if b = ':'.toUInt8 then some .colon
  else if b = ','.toUInt8 then some .comma
  else if b = '{'.toUInt8 then some .openCurlyBracket
  else if b = '}'.toUInt8 then some .closeCurlyBracket
  else if b = '['.toUInt8 then some .openBracket
  else if b = ']'.toUInt8 then some .closeBracket
  else none

def delimiterCalls (b : UInt8) (position : Pointer) : List (LexerCall δ) :=
  (structural b).toList.map fun tok => .token tok position

def isBig (b : UInt8) : Bool :=
  isDigit b || b = 'e'.toUInt8 || b = 'E'.toUInt8 || b = '-'.toUInt8 || b = '.'.toUInt8

lemma isBig_of_digit {b : UInt8} (h : isDigit b = true) : isBig b = true := by simp [isBig, h]

structure AtLookup (cfg : Config) (lex : Lexer) : Prop where
  tidy : Tidy cfg lex
  state : lex.state = .lookupToken

structure AtSign (cfg : Config) (lex : Lexer) : Prop where
  tidy : Tidy cfg lex
  state : lex.state = .inNumberSign
  sign : lex.minus = true

structure AtInt (cfg : Config) (minus : Bool) (ds : List UInt8) (lex : Lexer) : Prop where
  tidy : Tidy cfg lex
  state : lex.state = .inNumber
  sign : lex.minus = minus
  value : lex.intValue = decimal ds

structure AtFrac (cfg : Config) (fs : List UInt8) (lex : Lexer) : Prop where
  tidy : Tidy cfg lex
  state : lex.state = .inNumberFrac
  power : lex.fracPower = fs.length % 2 ^ 16

structure AtExpSign (cfg : Config) (lex : Lexer) : Prop where
  tidy : Tidy cfg lex
  state : lex.state = .inNumberExpSign

structure AtExp (cfg : Config) (negative : Bool) (es : List UInt8) (lex : Lexer) : Prop where
  tidy : Tidy cfg lex
  state : lex.state = .inNumberExp
  sign : lex.expMinus = negative
  value : (lex.expValue : ℤ) = decimal es
  notEmpty : lex.expNotEmpty = true ↔ es ≠ []

structure AtBig (cfg : Config) (lex : Lexer) : Prop where
  tidy : Tidy cfg lex
  state : lex.state = .inBigNumber

variable {cfg : Config} {lex : Lexer} {b : UInt8} {minus negative : Bool} {ds fs es : List UInt8}
  {index : ℤ}

section Magic

lemma AtLookup.recordMagic (h : AtLookup cfg lex) (b : UInt8) :
    AtLookup cfg (recordMagic lex b) := by
  obtain ⟨_, _, _, heq⟩ := recordMagic_eq lex b
  exact heq ▸ ⟨heq ▸ tidy_recordMagic h.tidy b, h.state⟩

lemma AtSign.recordMagic (h : AtSign cfg lex) (b : UInt8) : AtSign cfg (recordMagic lex b) := by
  obtain ⟨_, _, _, heq⟩ := recordMagic_eq lex b
  exact heq ▸ ⟨heq ▸ tidy_recordMagic h.tidy b, h.state, h.sign⟩

lemma AtInt.recordMagic (h : AtInt cfg minus ds lex) (b : UInt8) :
    AtInt cfg minus ds (recordMagic lex b) := by
  obtain ⟨_, _, _, heq⟩ := recordMagic_eq lex b
  exact heq ▸ ⟨heq ▸ tidy_recordMagic h.tidy b, h.state, h.sign, h.value⟩

lemma AtFrac.recordMagic (h : AtFrac cfg fs lex) (b : UInt8) : AtFrac cfg fs (recordMagic lex b) := by
  obtain ⟨_, _, _, heq⟩ := recordMagic_eq lex b
  exact heq ▸ ⟨heq ▸ tidy_recordMagic h.tidy b, h.state, h.power⟩

lemma AtExpSign.recordMagic (h : AtExpSign cfg lex) (b : UInt8) :
    AtExpSign cfg (recordMagic lex b) := by
  obtain ⟨_, _, _, heq⟩ := recordMagic_eq lex b
  exact heq ▸ ⟨heq ▸ tidy_recordMagic h.tidy b, h.state⟩

lemma AtExp.recordMagic (h : AtExp cfg negative es lex) (b : UInt8) :
    AtExp cfg negative es (recordMagic lex b) := by
  obtain ⟨_, _, _, heq⟩ := recordMagic_eq lex b
  exact heq ▸ ⟨heq ▸ tidy_recordMagic h.tidy b, h.state, h.sign, h.value, h.notEmpty⟩

lemma AtBig.recordMagic (h : AtBig cfg lex) (b : UInt8) : AtBig cfg (recordMagic lex b) := by
  obtain ⟨_, _, _, heq⟩ := recordMagic_eq lex b
  exact heq ▸ ⟨heq ▸ tidy_recordMagic h.tidy b, h.state⟩

end Magic

variable [DoubleArith δ] (hbits : 8 ≤ cfg.intBits)

include hbits

section Tidiness

lemma tidy_of_consume (h : Tidy cfg lex) {calls : List (LexerCall δ)} {lex' : Lexer}
    (heq : react cfg lex index b = .consume calls lex') : Tidy cfg lex' := by
  have hkeeps := react_tidy (δ := δ) hbits h index b
  rwa [heq] at hkeeps

lemma tidy_of_unread (h : Tidy cfg lex) {calls : List (LexerCall δ)} {lex' : Lexer}
    (heq : react cfg lex index b = .unread calls lex') : Tidy cfg lex' := by
  have hkeeps := react_tidy (δ := δ) hbits h index b
  rwa [heq] at hkeeps

lemma atLookup_of_push {before : List (List UInt8)}
    {l : List (LexerCall δ)} {code : ℤ}
    (h : observe LexerCall.isError (lexerPushAll cfg .zero before) = (l, some (code, lexer)))
    (hs : lexer.state = .lookupToken) : AtLookup cfg lexer := by
  obtain ⟨calls, index, hrun⟩ := scanner_reached 0 h
  exact ⟨scanner_run_tidy hbits (tidy_zero cfg) hrun, hs⟩

end Tidiness

section Integers

lemma AtSign.pushDigit (h : AtSign cfg lex) (hb : isDigit b = true) (index : ℤ) : ∃ lex',
    (react cfg lex index b : Reaction δ) = .consume [] lex' ∧ AtInt cfg true [b] lex' := by
  have heq : (react cfg lex index b : Reaction δ) =
      .consume [] { pushIntDigit cfg lex b with state := .inNumber } := by
    rw [react, h.state]
    exact if_pos hb
  have htidy := h.tidy
  simp only [Tidy, h.state] at htidy
  have hdigit := digit_range hb
  have hlarge := intMax_large hbits
  refine ⟨_, heq, tidy_of_consume hbits h.tidy heq, rfl, h.sign, ?_⟩
  exact (toInt_push hbits hb (by omega) (by omega)).trans (by rw [htidy.1]; rfl)

omit hbits in
lemma AtSign.other (h : AtSign cfg lex) (hb : ¬isDigit b = true) (index : ℤ) :
    (react cfg lex index b : Reaction δ) = .reject .eofInString := by
  rw [react, h.state]
  exact if_neg hb

omit hbits in
lemma AtInt.react_eq (h : AtInt cfg minus ds lex) (index : ℤ) (b : UInt8) :
    (react cfg lex index b : Reaction δ) =
      .ofNumber cfg lex (.buffer index) (.buffer (index - 1)) b := by
  rw [react, h.state]

omit hbits in
lemma AtInt.inRange (h : AtInt cfg minus ds lex) : InRange cfg lex := by
  have htidy := h.tidy
  simp only [Tidy, h.state] at htidy
  exact htidy.1

lemma AtInt.pushDigit (h : AtInt cfg minus ds lex) (hb : isDigit b = true) (hne : decimal ds ≠ 0)
    (hguard : decimal ds ≤ cfg.intMax / 10 - digit b) (index : ℤ) : ∃ lex',
    (react cfg lex index b : Reaction δ) = .consume [] lex' ∧ AtInt cfg minus (ds ++ [b]) lex' := by
  rw [← h.value] at hne hguard
  have heq : (react cfg lex index b : Reaction δ) = .consume [] (pushIntDigit cfg lex b) := by
    rw [h.react_eq, Reaction.ofNumber, if_pos hb, if_neg hne,
      if_neg (by rw [toInt_guard hbits hb]; omega)]
  refine ⟨_, heq, tidy_of_consume hbits h.tidy heq, h.state, h.sign, ?_⟩
  rw [decimal_concat, ← h.value]
  exact toInt_push hbits hb h.inRange.1 hguard

omit hbits in
lemma AtInt.zero (h : AtInt cfg minus ds lex) (hb : isDigit b = true) (hzero : decimal ds = 0)
    (index : ℤ) : (react cfg lex index b : Reaction δ) = .reject .leadingZero := by
  rw [← h.value] at hzero
  rw [h.react_eq, Reaction.ofNumber, if_pos hb, if_pos hzero]

lemma AtInt.big (h : AtInt cfg minus ds lex) (hb : isDigit b = true) (hne : decimal ds ≠ 0)
    (hguard : cfg.intMax / 10 - digit b < decimal ds) (hbignum : cfg.bignum = true) (index : ℤ) :
    ∃ lex', (react cfg lex index b : Reaction δ) =
      .consume [.tokenbnBegin (.buffer index) (decimal ds)] lex' ∧ AtBig cfg lex' := by
  rw [← h.value] at hne hguard
  have heq : (react cfg lex index b : Reaction δ) =
      .consume [.tokenbnBegin (.buffer index) lex.intValue] { lex with state := .inBigNumber } := by
    rw [h.react_eq, Reaction.ofNumber, if_pos hb, if_neg hne,
      if_pos (by rw [toInt_guard hbits hb]; omega), if_pos hbignum]
  exact ⟨_, h.value ▸ heq, tidy_of_consume hbits h.tidy heq, rfl⟩

lemma AtInt.overflow (h : AtInt cfg minus ds lex) (hb : isDigit b = true) (hne : decimal ds ≠ 0)
    (hguard : cfg.intMax / 10 - digit b < decimal ds) (hbignum : ¬cfg.bignum = true) (index : ℤ) :
    (react cfg lex index b : Reaction δ) = .reject .intOverflow := by
  rw [← h.value] at hne hguard
  rw [h.react_eq, Reaction.ofNumber, if_pos hb, if_neg hne,
    if_pos (by rw [toInt_guard hbits hb]; omega), if_neg hbignum]

lemma AtInt.point (h : AtInt cfg minus ds lex) (index : ℤ) : ∃ lex',
    (react cfg lex index '.'.toUInt8 : Reaction δ) = .consume [] lex' ∧ AtFrac cfg [] lex' := by
  have heq : (react cfg lex index '.'.toUInt8 : Reaction δ) =
      .consume [] { lex with state := .inNumberFrac } := by
    rw [h.react_eq, Reaction.ofNumber, if_neg (by decide), if_pos rfl]
  have htidy := h.tidy
  simp only [Tidy, h.state] at htidy
  exact ⟨_, heq, tidy_of_consume hbits h.tidy heq, rfl, htidy.2.1.2⟩

lemma AtInt.letter (h : AtInt cfg minus ds lex) (hb : b = 'e'.toUInt8 ∨ b = 'E'.toUInt8)
    (index : ℤ) : ∃ lex',
    (react cfg lex index b : Reaction δ) = .consume [] lex' ∧ AtExpSign cfg lex' := by
  have heq : (react cfg lex index b : Reaction δ) =
      .consume [] { lex with state := .inNumberExpSign } := by
    rw [h.react_eq, Reaction.ofNumber, if_neg (by rcases hb with rfl | rfl <;> decide),
      if_neg (by rcases hb with rfl | rfl <;> decide), if_pos hb]
  exact ⟨_, heq, tidy_of_consume hbits h.tidy heq, rfl⟩

lemma AtInt.end (h : AtInt cfg minus ds lex) (hb : ¬isDigit b = true) (hpoint : b ≠ '.'.toUInt8)
    (hletter : ¬(b = 'e'.toUInt8 ∨ b = 'E'.toUInt8)) (index : ℤ) : ∃ lex',
    (react cfg lex index b : Reaction δ) =
      .unread [.tokeni (signed minus (decimal ds)) (.buffer (index - 1))] lex' ∧ AtLookup cfg lex' := by
  have hvalue : signedInt cfg lex = signed minus (decimal ds) := by
    rw [signedInt, signed, ← h.value, ← h.sign]
    obtain ⟨hv, hmax⟩ := h.inRange
    have hneg : cfg.toInt (0 - lex.intValue) = -lex.intValue :=
      (toInt_of_range hbits (by omega) (by omega)).trans (zero_sub _)
    rw [hneg]
  have heq : (react cfg lex index b : Reaction δ) =
      .unread [.tokeni (signedInt cfg lex) (.buffer (index - 1))]
        { lex with intValue := 0, minus := false, state := .lookupToken } := by
    rw [h.react_eq, Reaction.ofNumber, if_neg hb, if_neg hpoint, if_neg hletter]
  exact ⟨_, hvalue ▸ heq, tidy_of_unread hbits h.tidy heq, rfl⟩

end Integers

section Fractions

omit hbits in
lemma AtFrac.react_eq (h : AtFrac cfg fs lex) (index : ℤ) (b : UInt8) :
    (react cfg lex index b : Reaction δ) = .ofFrac lex (.buffer (index - 1)) b := by
  rw [react, h.state]

lemma AtFrac.pushDigit (h : AtFrac cfg fs lex) (hb : isDigit b = true) (index : ℤ) : ∃ lex',
    (react cfg lex index b : Reaction δ) = .consume [] lex' ∧ AtFrac cfg (fs ++ [b]) lex' := by
  have heq : (react cfg lex index b : Reaction δ) = .consume [] (pushFracDigit lex b) := by
    rw [h.react_eq, Reaction.ofFrac, if_pos hb]
  refine ⟨_, heq, tidy_of_consume hbits h.tidy heq, h.state, ?_⟩
  change (lex.fracPower + 1) % 2 ^ 16 = _
  rw [h.power, Nat.mod_add_mod, List.length_append, List.length_singleton]

omit hbits in
lemma AtFrac.empty (h : AtFrac cfg fs lex) (hb : ¬isDigit b = true) (hfs : fs.length % 2 ^ 16 = 0)
    (index : ℤ) : (react cfg lex index b : Reaction δ) = .reject .emptyFrac := by
  rw [← h.power] at hfs
  rw [h.react_eq, Reaction.ofFrac, if_neg hb, if_pos hfs, if_pos hfs, ite_self]

lemma AtFrac.letter (h : AtFrac cfg fs lex) (hb : b = 'e'.toUInt8 ∨ b = 'E'.toUInt8)
    (hfs : fs.length % 2 ^ 16 ≠ 0) (index : ℤ) : ∃ lex',
    (react cfg lex index b : Reaction δ) = .consume [] lex' ∧ AtExpSign cfg lex' := by
  rw [← h.power] at hfs
  have heq : (react cfg lex index b : Reaction δ) =
      .consume [] { lex with state := .inNumberExpSign } := by
    rw [h.react_eq, Reaction.ofFrac, if_neg (by rcases hb with rfl | rfl <;> decide), if_pos hb,
      if_neg hfs]
  exact ⟨_, heq, tidy_of_consume hbits h.tidy heq, rfl⟩

lemma AtFrac.end (h : AtFrac cfg fs lex) (hb : ¬isDigit b = true)
    (hletter : ¬(b = 'e'.toUInt8 ∨ b = 'E'.toUInt8)) (hfs : fs.length % 2 ^ 16 ≠ 0) (index : ℤ) :
    ∃ (x : δ) (lex' : Lexer), (react cfg lex index b : Reaction δ) =
      .unread [.tokenf x (.buffer (index - 1))] lex' ∧ AtLookup cfg lex' := by
  rw [← h.power] at hfs
  have heq : (react cfg lex index b : Reaction δ) = .unread
      [.tokenf (negateIf lex.minus (fracDouble lex)) (.buffer (index - 1))] { lex with
        intValue := 0, fracPower := 0, fracValue := 0, minus := false, state := .lookupToken } := by
    rw [h.react_eq, Reaction.ofFrac, if_neg hb, if_neg hletter, if_neg hfs]
  exact ⟨_, _, heq, tidy_of_unread hbits h.tidy heq, rfl⟩

end Fractions

section Exponents

omit hbits in
lemma AtExpSign.react_eq (h : AtExpSign cfg lex) (index : ℤ) (b : UInt8) :
    (react cfg lex index b : Reaction δ) = .ofExpSign lex b := by
  rw [react, h.state]

omit hbits in
lemma AtExpSign.clear (h : AtExpSign cfg lex) : ExpClear lex := by
  have htidy := h.tidy
  simp only [Tidy, h.state] at htidy
  exact htidy.2

lemma AtExpSign.pushMinus (h : AtExpSign cfg lex) (index : ℤ) : ∃ lex',
    (react cfg lex index '-'.toUInt8 : Reaction δ) = .consume [] lex' ∧
      AtExp cfg true [] lex' := by
  obtain ⟨hvalue, -, hempty⟩ := h.clear
  have heq : (react cfg lex index '-'.toUInt8 : Reaction δ) =
      .consume [] { lex with expMinus := true, state := .inNumberExp } := by
    rw [h.react_eq, Reaction.ofExpSign, if_pos rfl]
  refine ⟨_, heq, tidy_of_consume hbits h.tidy heq, rfl, rfl, ?_, ?_⟩
  · exact congrArg Nat.cast hvalue
  · exact iff_of_false (by simp [hempty]) (by simp)

lemma AtExpSign.pushPlus (h : AtExpSign cfg lex) (index : ℤ) : ∃ lex',
    (react cfg lex index '+'.toUInt8 : Reaction δ) = .consume [] lex' ∧
      AtExp cfg false [] lex' := by
  obtain ⟨hvalue, hminus, hempty⟩ := h.clear
  have heq : (react cfg lex index '+'.toUInt8 : Reaction δ) =
      .consume [] { lex with state := .inNumberExp } := by
    rw [h.react_eq, Reaction.ofExpSign, if_neg (by decide), if_neg (by decide), if_neg (by decide)]
  refine ⟨_, heq, tidy_of_consume hbits h.tidy heq, rfl, hminus, ?_, ?_⟩
  · exact congrArg Nat.cast hvalue
  · exact iff_of_false (by simp [hempty]) (by simp)

lemma AtExpSign.firstDigit (h : AtExpSign cfg lex) (hb : isDigit b = true) (index : ℤ) : ∃ lex',
    (react cfg lex index b : Reaction δ) = .consume [] lex' ∧ AtExp cfg false [b] lex' := by
  obtain ⟨-, hminus, -⟩ := h.clear
  have hne : b ≠ '-'.toUInt8 := by
    rintro rfl
    exact absurd hb (by decide)
  have heq : (react cfg lex index b : Reaction δ) = .consume []
      { lex with expValue := (digit b).toNat, expNotEmpty := true, state := .inNumberExp } := by
    rw [h.react_eq, Reaction.ofExpSign, if_neg hne, if_pos hb]
  refine ⟨_, heq, tidy_of_consume hbits h.tidy heq, rfl, hminus, ?_, ?_⟩
  · exact (Int.toNat_of_nonneg (digit_range hb).1).trans (zero_add _).symm
  · exact iff_of_true rfl (List.cons_ne_nil _ _)

omit hbits in
lemma AtExpSign.other (h : AtExpSign cfg lex) (hminus : b ≠ '-'.toUInt8) (hb : ¬isDigit b = true)
    (hplus : b ≠ '+'.toUInt8) (index : ℤ) :
    (react cfg lex index b : Reaction δ) = .reject .badExponent := by
  rw [h.react_eq, Reaction.ofExpSign, if_neg hminus, if_neg hb, if_pos hplus]

omit hbits in
lemma AtExp.react_eq (h : AtExp cfg negative es lex) (index : ℤ) (b : UInt8) :
    (react cfg lex index b : Reaction δ) = .ofExp lex (.buffer (index - 1)) b := by
  rw [react, h.state]

omit hbits in
lemma AtExp.pushExpDigit (h : AtExp cfg negative es lex) (hb : isDigit b = true) :
    ((pushExpDigit lex b).expValue : ℤ) = decimal (es ++ [b]) := by
  have htidy := h.tidy
  simp only [Tidy, h.state] at htidy
  obtain ⟨hdigit, hdigit'⟩ := digit_range hb
  have hlimit : lex.expValue ≤ 323 := by
    refine htidy.2.trans ?_
    rw [expLimit]
    split_ifs <;> decide
  rw [decimal_concat, ← h.value]
  change (((10 * (lex.expValue : ℤ) + digit b) % 2 ^ 16).toNat : ℤ) = _
  omega

lemma AtExp.pushDigit (h : AtExp cfg negative es lex) (hb : isDigit b = true)
    (hlimit : decimal (es ++ [b]) ≤ expLimit negative) (index : ℤ) : ∃ lex',
    (react cfg lex index b : Reaction δ) = .consume [] lex' ∧
      AtExp cfg negative (es ++ [b]) lex' := by
  have hvalue := h.pushExpDigit hb
  have hminus : (Embedjson.pushExpDigit lex b).expMinus = negative := h.sign
  have heq : (react cfg lex index b : Reaction δ) =
      .consume [] (Embedjson.pushExpDigit lex b) := by
    rw [h.react_eq, Reaction.ofExp, if_pos hb, if_neg]
    rw [← hvalue] at hlimit
    rw [hminus]
    cases negative <;> simp [expLimit] at hlimit ⊢ <;> omega
  exact ⟨_, heq, tidy_of_consume hbits h.tidy heq, h.state, hminus, hvalue,
    iff_of_true rfl (by simp)⟩

omit hbits in
lemma AtExp.overflow (h : AtExp cfg negative es lex) (hb : isDigit b = true)
    (hlimit : expLimit negative < decimal (es ++ [b])) (index : ℤ) :
    (react cfg lex index b : Reaction δ) = .reject .exponentOverflow := by
  have hminus : (Embedjson.pushExpDigit lex b).expMinus = negative := h.sign
  rw [h.react_eq, Reaction.ofExp, if_pos hb, if_pos]
  rw [← h.pushExpDigit hb] at hlimit
  rw [hminus]
  cases negative <;> simp [expLimit] at hlimit ⊢ <;> omega

omit hbits in
lemma AtExp.empty (h : AtExp cfg negative [] lex) (hb : ¬isDigit b = true) (index : ℤ) :
    (react cfg lex index b : Reaction δ) = .reject .emptyExp := by
  have hempty : ¬lex.expNotEmpty = true := fun hne => h.notEmpty.mp hne rfl
  rw [h.react_eq, Reaction.ofExp, if_neg hb, if_pos hempty]

lemma AtExp.end (h : AtExp cfg negative es lex) (hb : ¬isDigit b = true) (hes : es ≠ [])
    (index : ℤ) : ∃ (x : δ) (lex' : Lexer), (react cfg lex index b : Reaction δ) =
      .unread [.tokenf x (.buffer (index - 1))] lex' ∧ AtLookup cfg lex' := by
  have heq : (react cfg lex index b : Reaction δ) = .unread
      [.tokenf (negateIf lex.minus (scaleByExp lex (fracDouble lex))) (.buffer (index - 1))]
      (resetNumber lex) := by
    rw [h.react_eq, Reaction.ofExp, if_neg hb, if_neg (not_not_intro (h.notEmpty.mpr hes))]
  exact ⟨_, _, heq, tidy_of_unread hbits h.tidy heq, rfl⟩

end Exponents

section Ends

omit hbits in
lemma AtBig.pushByte (h : AtBig cfg lex) (hb : isBig b = true) (index : ℤ) : ∃ lex',
    (react cfg lex index b : Reaction δ) = .consume [bignumCall b] lex' ∧ AtBig cfg lex' := by
  have heq : (react cfg lex index b : Reaction δ) = .consume [bignumCall b] lex := by
    rw [react, h.state]
    refine if_pos ?_
    simpa only [isBig, Bool.or_eq_true, decide_eq_true_eq, or_assoc] using hb
  exact ⟨_, heq, h⟩

lemma AtBig.end (h : AtBig cfg lex) (hb : ¬isBig b = true) (index : ℤ) : ∃ lex',
    (react cfg lex index b : Reaction δ) =
      .unread [.tokenbnEnd (.buffer (index - 1))] lex' ∧ AtLookup cfg lex' := by
  have heq : (react cfg lex index b : Reaction δ) =
      .unread [.tokenbnEnd (.buffer (index - 1))] (resetNumber lex) := by
    rw [react, h.state]
    refine if_neg ?_
    simpa only [isBig, Bool.or_eq_true, decide_eq_true_eq, or_assoc] using hb
  exact ⟨_, heq, tidy_of_unread hbits h.tidy heq, rfl⟩

omit hbits in
lemma AtLookup.react_eq (h : AtLookup cfg lex) (index : ℤ) (b : UInt8) :
    (react cfg lex index b : Reaction δ) = .ofLookup lex (.buffer index) b := by
  rw [react, h.state]

lemma AtLookup.pushMinus (h : AtLookup cfg lex) (index : ℤ) : ∃ lex',
    (react cfg lex index '-'.toUInt8 : Reaction δ) = .consume [] lex' ∧ AtSign cfg lex' := by
  have heq : (react cfg lex index '-'.toUInt8 : Reaction δ) =
      .consume [] { lex with minus := true, state := .inNumberSign } := by
    rw [h.react_eq]
    rfl
  exact ⟨_, heq, tidy_of_consume hbits h.tidy heq, rfl, rfl⟩

lemma AtLookup.firstDigit (h : AtLookup cfg lex) (hb : isDigit b = true) (index : ℤ) : ∃ lex',
    (react cfg lex index b : Reaction δ) = .consume [] lex' ∧ AtInt cfg false [b] lex' := by
  have hne (c : UInt8) (hc : isDigit c = false) : b ≠ c := by
    rintro rfl
    rw [hb] at hc
    cases hc
  have heq : (react cfg lex index b : Reaction δ) =
      .consume [] { lex with intValue := Embedjson.digit b, state := .inNumber } := by
    rw [h.react_eq, Reaction.ofLookup]
    simp only [hb, if_true, hne ' '.toUInt8 rfl, hne '\n'.toUInt8 rfl, hne '\r'.toUInt8 rfl,
      hne '\t'.toUInt8 rfl, hne ':'.toUInt8 rfl, hne ','.toUInt8 rfl, hne '{'.toUInt8 rfl,
      hne '}'.toUInt8 rfl, hne '['.toUInt8 rfl, hne ']'.toUInt8 rfl, hne '\"'.toUInt8 rfl,
      hne 't'.toUInt8 rfl, hne 'f'.toUInt8 rfl, hne 'n'.toUInt8 rfl, hne '-'.toUInt8 rfl,
      hne '+'.toUInt8 rfl, if_false, or_self]
  obtain ⟨-, hminus, -⟩ := h.tidy.clear h.state
  exact ⟨_, heq, tidy_of_consume hbits h.tidy heq, rfl, hminus, (zero_add _).symm⟩

omit hbits in
lemma AtLookup.delimiter (h : AtLookup cfg lex) (hb : b ∈ delimiters) (index : ℤ) : ∃ lex',
    (react cfg lex index b : Reaction δ) = .consume (delimiterCalls b (.buffer index)) lex' ∧
      AtLookup cfg lex' := by
  have heq : (react cfg lex index b : Reaction δ) =
      .consume (delimiterCalls b (.buffer index)) lex := by
    rw [h.react_eq]
    have hmem : b ∈ [' ', '\n', '\r', '\t', ':', ',', '{', '}', '[', ']'].map Char.toUInt8 := hb
    simp only [List.map_cons, List.map_nil, List.mem_cons, List.not_mem_nil, or_false] at hmem
    rcases hmem with rfl | rfl | rfl | rfl | rfl | rfl | rfl | rfl | rfl | rfl <;> rfl
  exact ⟨_, heq, h⟩

omit hbits in
lemma AtLookup.leadingPlus (h : AtLookup cfg lex) (index : ℤ) :
    (react cfg lex index '+'.toUInt8 : Reaction δ) = .reject .leadingPlus := by
  rw [h.react_eq]
  rfl

end Ends

end Embedjson
