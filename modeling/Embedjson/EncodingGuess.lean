import Embedjson.Lexer.Chunking
import Embedjson.Lexer.NumberEnds
import Embedjson.Lexer.Regions
import Embedjson.Lexer.Validator

namespace Embedjson

open Foundations Foundations.Program

variable {δ : Type} [DoubleArith δ] {cfg : Config} {lex lex' : Lexer} {b b₀ b₁ b₂ b₃ b₄ : UInt8}
  {s t : Scan} {calls : List (LexerCall δ)}

section Guesses

/-- The class of RFC 4627 for a pattern of zeros. -/
def patternEncoding (b₀ b₁ b₂ b₃ : UInt8) : Encoding :=
  match decide (b₀ = 0), decide (b₁ = 0), decide (b₂ = 0), decide (b₃ = 0) with
  | true, true, true, false => .utf32be
  | true, false, true, false => .utf16be
  | false, true, true, true => .utf32le
  | false, true, false, true => .utf16le
  | _, _, _, _ => .utf8

omit [DoubleArith δ] in
lemma append_eq_append_iff {v w : ℕ} {x x' : BitVec v} {y y' : BitVec w} :
    x ++ y = x' ++ y' ↔ x = x' ∧ y = y' := by
  constructor
  · intro h
    constructor
    · ext i hi
      have hbit := congrArg (fun z => z.getLsbD (i + w)) h
      simp only [BitVec.getLsbD_append, if_neg (Nat.not_lt.mpr (Nat.le_add_left w i)),
        Nat.add_sub_cancel] at hbit
      exact hbit
    · ext i hi
      have hbit := congrArg (fun z => z.getLsbD i) h
      simp only [BitVec.getLsbD_append, if_pos hi] at hbit
      exact hbit
  · rintro ⟨rfl, rfl⟩
    rfl

lemma or_ones (x : BitVec 8) : x ||| 0xff#8 = 0xff#8 := by
  revert x
  decide

lemma asInt_or_eq_iff (b₀ b₁ b₂ b₃ : UInt8) (m₃ m₂ m₁ m₀ : BitVec 8) :
    asInt #v[b₀, b₁, b₂, b₃] ||| (m₃ ++ m₂ ++ m₁ ++ m₀) = m₃ ++ m₂ ++ m₁ ++ m₀ ↔
      b₃.toBitVec ||| m₃ = m₃ ∧ b₂.toBitVec ||| m₂ = m₂ ∧ b₁.toBitVec ||| m₁ = m₁ ∧
        b₀.toBitVec ||| m₀ = m₀ := by
  have hint : asInt #v[b₀, b₁, b₂, b₃] = b₃.toBitVec ++ b₂.toBitVec ++ b₁.toBitVec ++ b₀.toBitVec :=
    rfl
  rw [hint, BitVec.or_append, BitVec.or_append, BitVec.or_append]
  refine append_eq_append_iff.trans ?_
  rw [append_eq_append_iff, append_eq_append_iff, and_assoc, and_assoc]

lemma toBitVec_or_zero_iff (b : UInt8) : b.toBitVec ||| 0#8 = 0#8 ↔ b = 0 := by
  rw [BitVec.or_zero, ← UInt8.toBitVec_inj]
  rfl

lemma guessEncoding_eq (b₀ b₁ b₂ b₃ : UInt8) : guessEncoding #v[b₀, b₁, b₂, b₃] =
    if b₃ = 0 ∧ b₂ = 0 ∧ b₁ = 0 then .utf32be
    else if b₂ = 0 ∧ b₁ = 0 ∧ b₀ = 0 then .utf32le
    else if b₃ = 0 ∧ b₁ = 0 then .utf16be
    else if b₂ = 0 ∧ b₀ = 0 then .utf16le
    else .utf8 := by
  have hbe32 : asInt #v[b₀, b₁, b₂, b₃] ||| 0x000000FF#32 = 0x000000FF#32 ↔ _ :=
    asInt_or_eq_iff b₀ b₁ b₂ b₃ 0#8 0#8 0#8 0xff#8
  have hle32 : asInt #v[b₀, b₁, b₂, b₃] ||| 0xFF000000#32 = 0xFF000000#32 ↔ _ :=
    asInt_or_eq_iff b₀ b₁ b₂ b₃ 0xff#8 0#8 0#8 0#8
  have hbe16 : asInt #v[b₀, b₁, b₂, b₃] ||| 0x00FF00FF#32 = 0x00FF00FF#32 ↔ _ :=
    asInt_or_eq_iff b₀ b₁ b₂ b₃ 0#8 0xff#8 0#8 0xff#8
  have hle16 : asInt #v[b₀, b₁, b₂, b₃] ||| 0xFF00FF00#32 = 0xFF00FF00#32 ↔ _ :=
    asInt_or_eq_iff b₀ b₁ b₂ b₃ 0xff#8 0#8 0xff#8 0#8
  simp only [toBitVec_or_zero_iff, or_ones, and_true, true_and] at hbe32 hle32 hbe16 hle16
  simp only [guessEncoding, hbe32, hle32, hbe16, hle16]

/-- Behind a byte that is not zero, the guess differs from the class where the two others are little
endian. -/
lemma guess_eq_pattern_iff (hb : b₀ ≠ 0) :
    guessEncoding #v[b₀, b₁, b₂, b₃] = patternEncoding b₀ b₁ b₂ b₃ ↔ ¬(b₁ = 0 ∧ b₃ = 0) := by
  rw [guessEncoding_eq, patternEncoding]
  by_cases h₁ : b₁ = 0 <;> by_cases h₂ : b₂ = 0 <;> by_cases h₃ : b₃ = 0 <;>
    simp [hb, h₁, h₂, h₃]

end Guesses

section Records

structure Origin where
  magic : Vector UInt8 4
  magicBytesRead : ℕ
  encoding : Encoding

def Lexer.origin (lex : Lexer) : Origin := ⟨lex.magic, lex.magicBytesRead, lex.encoding⟩

def Origin.record (o : Origin) (b : UInt8) : Origin :=
  if h : o.magicBytesRead < 4 then ⟨o.magic.set o.magicBytesRead b, o.magicBytesRead + 1, o.encoding⟩
  else if o.encoding = .unknown then { o with encoding := guessEncoding o.magic }
  else o

omit [DoubleArith δ] in
lemma recordMagic_origin (lex : Lexer) (b : UInt8) :
    (recordMagic lex b).origin = lex.origin.record b := by
  rw [recordMagic, Origin.record]
  split_ifs <;> first | rfl | contradiction

lemma guessEncoding_ne_unknown (magic : Vector UInt8 4) : guessEncoding magic ≠ .unknown := by
  rw [guessEncoding]
  split_ifs <;> exact nofun

lemma record_guessed (magic : Vector UInt8 4) (bytes : List UInt8) :
    bytes.foldl Origin.record ⟨magic, 4, guessEncoding magic⟩ = ⟨magic, 4, guessEncoding magic⟩ := by
  induction bytes with
  | nil => rfl
  | cons b bytes ih =>
    rw [List.foldl_cons, Origin.record, dif_neg (lt_irrefl 4),
      if_neg (guessEncoding_ne_unknown magic)]
    exact ih

lemma record_zero {bytes : List UInt8} (hne : bytes ≠ []) (b₀ b₁ b₂ b₃ : UInt8) :
    (b₀ :: b₁ :: b₂ :: b₃ :: bytes).foldl Origin.record Lexer.zero.origin =
      ⟨#v[b₀, b₁, b₂, b₃], 4, guessEncoding #v[b₀, b₁, b₂, b₃]⟩ := by
  obtain ⟨b, bytes, rfl⟩ := List.exists_cons_of_ne_nil hne
  exact record_guessed _ bytes

def dispatches (lex : Lexer) (b : UInt8) : List UInt8 := if lex.endsNumber b then [b, b] else [b]

omit [DoubleArith δ] in
lemma checkUtf8_origin {last : Bool} (h : checkUtf8 cfg lex b = .ok (lex', last)) :
    lex'.origin = lex.origin := by
  cases hv : cfg.validateUtf8 with
  | false =>
    rw [checkUtf8, hv] at h
    cases h
    rfl
  | true =>
    rw [checkUtf8_frame hv] at h
    cases hc : checkUtf8 .default (counting lex.nb lex.cc) b with
    | error code =>
      rw [hc] at h
      cases h
    | ok a =>
      rw [hc] at h
      cases h
      rfl

lemma react_origin (lex : Lexer) (index : ℤ) (b : UInt8) :
    (react cfg lex index b : Reaction δ).Keeps fun lex' => lex'.origin = lex.origin := by
  rw [react]
  cases lex.state with
  | lookupToken =>
    iterate 12 refine .ite (fun _ => rfl) fun _ => ?_
    exact .ite (fun _ => trivial) fun _ => .ite (fun _ => rfl) fun _ => trivial
  | inString =>
    dsimp only [Reaction.ofString]
    rcases h : checkUtf8 cfg lex b with code | ⟨lex', last⟩
    · trivial
    · have horigin := checkUtf8_origin h
      cases last
      · exact horigin
      · exact .ite (fun _ => horigin) fun _ => .ite (fun _ => horigin) fun _ =>
          .ite (fun _ => trivial) fun _ => horigin
  | inStringEscape =>
    dsimp only [Reaction.ofEscape]
    cases escapeByte b with
    | some e => rfl
    | none => exact .ite (fun _ => rfl) fun _ => trivial
  | inStringUnicodeEscape =>
    dsimp only [Reaction.ofUnicodeEscape]
    cases hexDigit b with
    | none => trivial
    | some value => exact .ite (fun _ => rfl) fun _ => rfl
  | inNumberSign => exact .ite (fun _ => rfl) fun _ => trivial
  | inNumber =>
    exact .ite (fun _ => .ite (fun _ => trivial) fun _ => .ite (fun _ => .ite (fun _ => rfl)
      fun _ => trivial) fun _ => rfl) fun _ => .ite (fun _ => rfl) fun _ => .ite (fun _ => rfl)
      fun _ => rfl
  | inNumberFrac =>
    exact .ite (fun _ => rfl) fun _ => .ite (fun _ => .ite (fun _ => trivial) fun _ => rfl) fun _ =>
      .ite (fun _ => trivial) fun _ => rfl
  | inNumberExpSign =>
    exact .ite (fun _ => rfl) fun _ => .ite (fun _ => rfl) fun _ => .ite (fun _ => trivial)
      fun _ => rfl
  | inNumberExp =>
    exact .ite (fun _ => .ite (fun _ => trivial) fun _ => rfl) fun _ => .ite (fun _ => trivial)
      fun _ => rfl
  | inBigNumber => exact .ite (fun _ => rfl) fun _ => rfl
  | inTrue | inFalse | inNull =>
    exact .ite (fun _ => trivial) fun _ => .ite (fun _ => rfl) fun _ => rfl

lemma scanStep_origin (h : scanStep cfg s b = (calls, .ok t)) :
    t.lex.origin = (dispatches s.lex b).foldl Origin.record s.lex.origin := by
  have hkeeps : (react cfg (recordMagic s.lex b) s.index b : Reaction δ).Keeps
      fun lex => lex.origin = (recordMagic s.lex b).origin := react_origin _ s.index b
  have hunread : (react cfg (recordMagic s.lex b) s.index b : Reaction δ).isUnread =
      (recordMagic s.lex b).endsNumber b := react_isUnread s.index
  rw [recordMagic_endsNumber] at hunread
  rw [dispatches, ← hunread]
  rw [scanStep] at h
  cases hreact : (react cfg (recordMagic s.lex b) s.index b : Reaction δ) with
  | consume calls' lex =>
    rw [hreact] at h hkeeps
    cases h
    exact hkeeps.trans (recordMagic_origin _ _)
  | reject code =>
    rw [hreact] at h
    cases h
  | unread calls' lex =>
    rw [hreact] at h hkeeps
    have hkeeps' : (react cfg (recordMagic lex b) s.index b : Reaction δ).Keeps
        fun lex' => lex'.origin = (recordMagic lex b).origin := react_origin _ s.index b
    dsimp only at h
    cases hreact' : (react cfg (recordMagic lex b) s.index b : Reaction δ) with
    | consume calls'' lex' =>
      rw [hreact'] at h hkeeps'
      cases h
      have hlex : lex.origin = s.lex.origin.record b := hkeeps.trans (recordMagic_origin _ _)
      have hlex' : lex'.origin = lex.origin.record b := hkeeps'.trans (recordMagic_origin _ _)
      rw [hlex] at hlex'
      exact hlex'
    | reject code | unread calls'' lex' =>
      rw [hreact'] at h
      cases h

end Records

section FirstBytes

/-- The byte is no part of an integer, of a fraction or of an exponent. -/
def endsInt (b : UInt8) : Bool :=
  !isDigit b && b ≠ '.'.toUInt8 && !(b = 'e'.toUInt8 ∨ b = 'E'.toUInt8)

def secondEnds (b₀ b₁ : UInt8) : Bool := isDigit b₀ && endsInt b₁

/-- Two digits that the guard of `lex.int_value` does not let through. -/
def switches (cfg : Config) (b₀ b₁ : UInt8) : Bool :=
  isDigit b₀ && digit b₀ > cfg.toInt (cfg.intMax / 10 - digit b₁)

/-- The third byte ends a number, which began with the first or the second one. -/
def thirdEnds (cfg : Config) (b₀ b₁ b₂ : UInt8) : Bool :=
  isDigit b₁ && b₀ ≠ '\"'.toUInt8 && endsInt b₂ && !(b₂ = '-'.toUInt8 && switches cfg b₀ b₁)

inductive BehindFirst (frac : ℕ) (b : UInt8) (lex : Lexer) : Prop
  | int (hb : isDigit b = true) (hs : lex.state = .inNumber) (hvalue : lex.intValue = digit b)
      (hfrac : lex.fracPower = frac)
  | sign (hb : b = '-'.toUInt8) (hs : lex.state = .inNumberSign)
  | string (hb : b = '\"'.toUInt8) (hs : lex.state = .inString)
  | keyword (hb : b = 't'.toUInt8 ∨ b = 'f'.toUInt8 ∨ b = 'n'.toUInt8) (hoffset : lex.offset = 1)
      (hs : lex.state = .inTrue ∨ lex.state = .inFalse ∨ lex.state = .inNull)
  | lookup (hb : isDigit b = false) (hne : b ≠ '\"'.toUInt8) (hs : lex.state = .lookupToken)

omit [DoubleArith δ] in
lemma lookup_behindFirst (hs : lex.state = .lookupToken) (at_ : Pointer) (b : UInt8) :
    (Reaction.ofLookup lex at_ b : Reaction δ).Keeps (BehindFirst lex.fracPower b) := by
  have hlookup (c : UInt8) (hb : b = c) (hdigit : isDigit c = false) (hne : c ≠ '\"'.toUInt8) :
      BehindFirst lex.fracPower b lex := .lookup (hb ▸ hdigit) (hb ▸ hne) hs
  refine .ite (fun hb => ?_) fun _ => ?_
  · rcases hb with hb | hb | hb | hb <;> exact hlookup _ hb (by decide) (by decide)
  iterate 6 refine .ite (fun hb => hlookup _ hb (by decide) (by decide)) fun _ => ?_
  refine .ite (fun hb => .string hb rfl) fun _ => ?_
  refine .ite (fun hb => .keyword (.inl hb) rfl (.inl rfl)) fun _ => ?_
  refine .ite (fun hb => .keyword (.inr (.inl hb)) rfl (.inr (.inl rfl))) fun _ => ?_
  refine .ite (fun hb => .keyword (.inr (.inr hb)) rfl (.inr (.inr rfl))) fun _ => ?_
  refine .ite (fun hb => .sign hb rfl) fun _ => ?_
  exact .ite (fun _ => trivial) fun _ => .ite (fun hb => .int hb rfl rfl rfl) fun _ => trivial

lemma scanStep_behindFirst (hs : s.lex.state = .lookupToken)
    (h : scanStep cfg s b = (calls, .ok t)) : BehindFirst s.lex.fracPower b t.lex := by
  have hs' : (recordMagic s.lex b).state = .lookupToken := by rw [recordMagic_state, hs]
  have hkeeps : (react cfg (recordMagic s.lex b) s.index b : Reaction δ).Keeps
      (BehindFirst (recordMagic s.lex b).fracPower b) := by
    rw [react, hs']
    exact lookup_behindFirst hs' _ b
  rw [recordMagic_fracPower] at hkeeps
  rw [scanStep] at h
  cases hreact : (react cfg (recordMagic s.lex b) s.index b : Reaction δ) with
  | consume calls' lex =>
    rw [hreact] at h hkeeps
    cases h
    exact hkeeps
  | reject code =>
    rw [hreact] at h
    cases h
  | unread calls' lex => exact absurd hreact (react_ne_unread hs' _ _ _ _)

omit [DoubleArith δ] in
lemma BehindFirst.endsNumber {frac : ℕ} (h : BehindFirst frac b lex) (c : UInt8) :
    lex.endsNumber c = (isDigit b && endsInt c) := by
  rw [Lexer.endsNumber]
  cases h with
  | int hb hs => rw [hs, hb, Bool.true_and, endsInt]
  | sign hb hs | string hb hs =>
    have hdigit : isDigit b = false := by
      rw [hb]
      decide
    rw [hs, hdigit, Bool.false_and]
  | keyword hb hoffset hs =>
    have hdigit : isDigit b = false := by rcases hb with rfl | rfl | rfl <;> decide
    rw [hdigit, Bool.false_and]
    rcases hs with hs | hs | hs <;> rw [hs]
  | lookup hb hne hs => rw [hs, hb, Bool.false_and]

def BehindSecond (cfg : Config) (b₀ b₁ b₂ : UInt8) (lex : Lexer) : Prop :=
  lex.state = .lookupToken ∧ isDigit b₁ = false ∨ lex.endsNumber b₂ = thirdEnds cfg b₀ b₁ b₂

omit [DoubleArith δ] in
lemma thirdEnds_of_not_digit (h : isDigit b₁ = false) : thirdEnds cfg b₀ b₁ b₂ = false := by
  rw [thirdEnds, h, Bool.false_and, Bool.false_and, Bool.false_and]

omit [DoubleArith δ] in
lemma number_behindSecond (hb : isDigit b₀ = true) (hs : lex.state = .inNumber)
    (hvalue : lex.intValue = digit b₀) (hfrac : lex.fracPower = 0) (at_ before : Pointer)
    (b₁ b₂ : UInt8) :
    (Reaction.ofNumber cfg lex at_ before b₁ : Reaction δ).Keeps (BehindSecond cfg b₀ b₁ b₂) := by
  have hne : b₀ ≠ '\"'.toUInt8 := by
    rintro rfl
    exact absurd hb (by decide)
  rw [Reaction.ofNumber]
  by_cases h₁ : isDigit b₁ = true
  · rw [if_pos h₁]
    have hthird : thirdEnds cfg b₀ b₁ b₂ = (endsInt b₂ && !(b₂ = '-'.toUInt8 &&
        (lex.intValue > cfg.toInt (cfg.intMax / 10 - digit b₁)))) := by
      rw [thirdEnds, switches, hb, hvalue, decide_eq_true hne, h₁, Bool.true_and, Bool.true_and,
        Bool.true_and]
    refine .ite (fun _ => trivial) fun _ => .ite
      (fun hswitch => .ite (fun _ => .inr ?_) fun _ => trivial) fun hswitch => .inr ?_
    · rw [hthird, decide_eq_true hswitch, Bool.and_true, Lexer.endsNumber, endsInt]
      by_cases hminus : b₂ = '-'.toUInt8
      · simp [hminus]
      · by_cases hdigit : isDigit b₂ = true <;> by_cases hpoint : b₂ = '.'.toUInt8 <;>
          simp [hminus, hdigit, hpoint]
    · rw [hthird, decide_eq_false hswitch, Bool.and_false, Bool.not_false, Bool.and_true,
        Lexer.endsNumber, show (pushIntDigit cfg lex b₁).state = .inNumber from hs, endsInt]
  · have hdigit := Bool.eq_false_iff.mpr h₁
    rw [if_neg h₁]
    refine .ite (fun _ => .inr ?_) fun _ => .ite (fun _ => .inr ?_) fun _ => .inl ⟨rfl, hdigit⟩
    · rw [thirdEnds_of_not_digit hdigit, Lexer.endsNumber]
      simp [hfrac]
    · rw [thirdEnds_of_not_digit hdigit, Lexer.endsNumber]

omit [DoubleArith δ] in
lemma keyword_behindSecond {keyword : String} {code : ErrorCode} {tok : Tok} {last : ℕ} {c : UInt8}
    (hs : lex.state = .inTrue ∨ lex.state = .inFalse ∨ lex.state = .inNull) (hoffset : lex.offset = 1)
    (hc : (keyword.toList.map Char.toUInt8 ++ [0])[1]? = some c) (hnot : isDigit c = false)
    (at_ : Pointer) (b₁ b₂ : UInt8) :
    (Reaction.ofKeyword keyword code tok last lex at_ b₁ : Reaction δ).Keeps
      (BehindSecond cfg b₀ b₁ b₂) := by
  rw [Reaction.ofKeyword, hoffset, hc]
  refine .ite (fun _ => trivial) fun hb₁ => ?_
  obtain rfl := Option.some.inj (not_not.mp hb₁)
  refine .ite (fun _ => .inl ⟨rfl, hnot⟩) fun _ => .inr ?_
  rw [thirdEnds_of_not_digit hnot, Lexer.endsNumber]
  dsimp only
  rcases hs with hs | hs | hs <;> rw [hs]

lemma lookup_behindSecond (h₀ : isDigit b₀ = false) (hne : b₀ ≠ '\"'.toUInt8) {frac : ℕ}
    (h : BehindFirst frac b₁ lex) : BehindSecond cfg b₀ b₁ b₂ lex := by
  refine .inr ((h.endsNumber b₂).trans ?_)
  rw [thirdEnds, switches, h₀, decide_eq_true hne, Bool.false_and, Bool.and_false, Bool.not_false,
    Bool.and_true, Bool.and_true]

lemma react_behindSecond (h : BehindFirst 0 b₀ lex) (index : ℤ) (b₁ b₂ : UInt8) :
    (react cfg lex index b₁ : Reaction δ).Keeps (BehindSecond cfg b₀ b₁ b₂) := by
  cases h with
  | int hb hs hvalue hfrac =>
    rw [react, hs]
    exact number_behindSecond hb hs hvalue hfrac _ _ b₁ b₂
  | sign hb hs =>
    have hdigit : isDigit b₀ = false := by
      rw [hb]
      decide
    have hne : b₀ ≠ '\"'.toUInt8 := by
      rw [hb]
      decide
    rw [react, hs]
    refine .ite (fun h₁ => .inr ?_) fun _ => trivial
    rw [thirdEnds, switches, h₁, hdigit, decide_eq_true hne, Bool.true_and, Bool.true_and,
      Bool.false_and, Bool.and_false, Bool.not_false, Bool.and_true, Lexer.endsNumber, endsInt]
  | string hb hs =>
    have hthird : thirdEnds cfg b₀ b₁ b₂ = false := by
      rw [thirdEnds, hb, decide_eq_false (not_not_intro rfl), Bool.and_false, Bool.false_and,
        Bool.false_and]
    rw [react, hs]
    dsimp only [Reaction.ofString]
    rcases h : checkUtf8 cfg lex b₁ with code | ⟨lex', last⟩
    · trivial
    · have hstate : lex'.state = .inString := (checkUtf8_state h).trans hs
      have hinside : BehindSecond cfg b₀ b₁ b₂ lex' := .inr (by rw [hthird, Lexer.endsNumber, hstate])
      cases last
      · exact hinside
      · exact .ite (fun _ => .inr (by rw [hthird, Lexer.endsNumber])) fun _ =>
          .ite (fun _ => .inr (by rw [hthird, Lexer.endsNumber])) fun _ => .ite (fun _ => trivial)
            fun _ => hinside
  | keyword hb hoffset hs =>
    have hletter {keyword : String} {code : ErrorCode} {tok : Tok} {last : ℕ} (c : UInt8)
        (hc : (keyword.toList.map Char.toUInt8 ++ [0])[1]? = some c) (hnot : isDigit c = false) :
        (Reaction.ofKeyword keyword code tok last lex (.buffer index) b₁ : Reaction δ).Keeps
          (BehindSecond cfg b₀ b₁ b₂) := keyword_behindSecond hs hoffset hc hnot _ b₁ b₂
    rw [react]
    rcases hs with hs | hs | hs <;> rw [hs]
    · exact hletter 'r'.toUInt8 rfl (by decide)
    · exact hletter 'a'.toUInt8 rfl (by decide)
    · exact hletter 'u'.toUInt8 rfl (by decide)
  | lookup hb hne hs =>
    rw [react, hs]
    exact (lookup_behindFirst hs (.buffer index) b₁).mono fun _ hlex =>
      lookup_behindSecond hb hne hlex

omit [DoubleArith δ] in
lemma BehindFirst.recordMagic {frac : ℕ} (h : BehindFirst frac b lex) (c : UInt8) :
    BehindFirst frac b (recordMagic lex c) := by
  obtain ⟨magic, read, encoding, heq⟩ := recordMagic_eq lex c
  rw [heq]
  cases h with
  | int hb hs hvalue hfrac => exact .int hb hs hvalue hfrac
  | sign hb hs => exact .sign hb hs
  | string hb hs => exact .string hb hs
  | keyword hb hoffset hs => exact .keyword hb hoffset hs
  | lookup hb hne hs => exact .lookup hb hne hs

lemma BehindFirst.thirdEnds (h : BehindFirst 0 b₀ s.lex) (hstep : scanStep cfg s b₁ = (calls, .ok t))
    (b₂ : UInt8) : t.lex.endsNumber b₂ = thirdEnds cfg b₀ b₁ b₂ := by
  have hkeeps : (react cfg (Embedjson.recordMagic s.lex b₁) s.index b₁ : Reaction δ).Keeps
      (BehindSecond cfg b₀ b₁ b₂) := react_behindSecond (h.recordMagic b₁) s.index b₁ b₂
  rw [scanStep] at hstep
  cases hreact : (react cfg (Embedjson.recordMagic s.lex b₁) s.index b₁ : Reaction δ) with
  | consume calls' lex =>
    rw [hreact] at hstep hkeeps
    cases hstep
    rcases hkeeps with ⟨hs, hnot⟩ | hkeeps
    · rw [thirdEnds_of_not_digit hnot, Lexer.endsNumber, show lex.state = .lookupToken from hs]
    · exact hkeeps
  | reject code =>
    rw [hreact] at hstep
    cases hstep
  | unread calls' lex =>
    have hends : (Embedjson.recordMagic s.lex b₁).endsNumber b₁ = true := by
      have hunread : (react cfg (Embedjson.recordMagic s.lex b₁) s.index b₁ : Reaction δ).isUnread =
          (Embedjson.recordMagic s.lex b₁).endsNumber b₁ := react_isUnread s.index
      rw [← hunread, hreact, isUnread_unread]
    rw [(h.recordMagic b₁).endsNumber] at hends
    have hnot : isDigit b₁ = false := by
      by_contra hdigit
      simp [endsInt, hdigit] at hends
    have hs : (Embedjson.recordMagic lex b₁).state = .lookupToken := by
      rw [recordMagic_state, react_unread_state hreact]
    have hkeeps' := lookup_behindFirst (δ := δ) hs (.buffer s.index) b₁
    have hreaction : (react cfg (Embedjson.recordMagic lex b₁) s.index b₁ : Reaction δ) =
        .ofLookup (Embedjson.recordMagic lex b₁) (.buffer s.index) b₁ := by rw [react, hs]
    rw [hreact] at hstep
    dsimp only at hstep
    rw [hreaction] at hstep
    cases hreact' : (Reaction.ofLookup (Embedjson.recordMagic lex b₁) (.buffer s.index) b₁ :
        Reaction δ) with
    | consume calls'' lex' =>
      rw [hreact'] at hstep hkeeps'
      cases hstep
      have hfirst : BehindFirst (Embedjson.recordMagic lex b₁).fracPower b₁ lex' := hkeeps'
      rw [thirdEnds_of_not_digit hnot, hfirst.endsNumber, hnot, Bool.false_and]
    | reject code | unread calls'' lex' =>
      rw [hreact'] at hstep
      cases hstep

/-- What `magic` holds behind five bytes: a byte that ends a number is there twice. -/
def recorded (cfg : Config) (b₀ b₁ b₂ b₃ : UInt8) : Vector UInt8 4 :=
  if secondEnds b₀ b₁ then #v[b₀, b₁, b₁, b₂]
  else if thirdEnds cfg b₀ b₁ b₂ then #v[b₀, b₁, b₂, b₂]
  else #v[b₀, b₁, b₂, b₃]

lemma recorded_eq_iff : recorded cfg b₀ b₁ b₂ b₃ = #v[b₀, b₁, b₂, b₃] ↔
    (secondEnds b₀ b₁ → b₁ = b₂ ∧ b₂ = b₃) ∧ (thirdEnds cfg b₀ b₁ b₂ → b₂ = b₃) := by
  rw [recorded]
  by_cases hsecond : secondEnds b₀ b₁ = true
  · have hthird : thirdEnds cfg b₀ b₁ b₂ = false := by
      refine thirdEnds_of_not_digit ?_
      by_contra hdigit
      simp [secondEnds, endsInt, hdigit] at hsecond
    simp [hsecond, hthird]
  · by_cases hthird : thirdEnds cfg b₀ b₁ b₂ = true <;> simp [hsecond, hthird]

lemma run_origin {bytes : List UInt8} (h : (scanner cfg).run s (b :: bytes) = (calls, .ok t)) :
    ∃ more, t.lex.origin = (b :: more).foldl Origin.record s.lex.origin ∧
      bytes.length ≤ more.length := by
  induction bytes generalizing s b calls with
  | nil =>
    rw [Transducer.run_singleton] at h
    have horigin := scanStep_origin h
    rw [dispatches] at horigin
    split at horigin
    · exact ⟨[b], horigin, Nat.zero_le _⟩
    · exact ⟨[], horigin, le_rfl⟩
  | cons c bytes ih =>
    obtain ⟨ps, qs, u, hstep, hrun, -⟩ := Transducer.run_cons_eq_ok _ h
    obtain ⟨more, horigin, hlength⟩ := ih hrun
    have hfirst := scanStep_origin hstep
    rw [hfirst, ← List.foldl_append] at horigin
    rw [dispatches] at horigin
    split at horigin
    · exact ⟨b :: c :: more, horigin, by simp; omega⟩
    · exact ⟨c :: more, horigin, by simp; omega⟩

lemma origin_of_run {rest : List UInt8}
    (h : (scanner cfg).run ⟨.zero, 0⟩ (b₀ :: b₁ :: b₂ :: b₃ :: b₄ :: rest) = (calls, .ok t)) :
    t.lex.magic = recorded cfg b₀ b₁ b₂ b₃ ∧
      t.lex.encoding = guessEncoding (recorded cfg b₀ b₁ b₂ b₃) := by
  obtain ⟨_, _, s₁, h₁, h, -⟩ := Transducer.run_cons_eq_ok _ h
  obtain ⟨_, _, s₂, h₂, h, -⟩ := Transducer.run_cons_eq_ok _ h
  obtain ⟨_, _, s₃, h₃, h, -⟩ := Transducer.run_cons_eq_ok _ h
  obtain ⟨more, horigin, hlength⟩ := run_origin h
  have hfirst : BehindFirst 0 b₀ s₁.lex := scanStep_behindFirst rfl h₁
  have hsecond : s₁.lex.endsNumber b₁ = secondEnds b₀ b₁ := hfirst.endsNumber b₁
  have hthird : s₂.lex.endsNumber b₂ = thirdEnds cfg b₀ b₁ b₂ := hfirst.thirdEnds h₂ b₂
  have hne : more ≠ [] := by
    rintro rfl
    simp at hlength
  have hstart : dispatches (Scan.mk .zero 0).lex b₀ = [b₀] := rfl
  rw [scanStep_origin h₃, scanStep_origin h₂, scanStep_origin h₁, hstart, dispatches, dispatches,
    hsecond, hthird, ← List.foldl_append, ← List.foldl_append, ← List.foldl_append] at horigin
  have hfour : t.lex.origin = ⟨recorded cfg b₀ b₁ b₂ b₃, 4,
      guessEncoding (recorded cfg b₀ b₁ b₂ b₃)⟩ := by
    rw [horigin, recorded]
    by_cases hends : secondEnds b₀ b₁ = true
    · by_cases hends' : thirdEnds cfg b₀ b₁ b₂ = true
      · rw [if_pos hends, if_pos hends, if_pos hends']
        exact record_zero (List.cons_ne_nil _ _) b₀ b₁ b₁ b₂
      · rw [if_pos hends, if_pos hends, if_neg hends']
        exact record_zero (List.cons_ne_nil _ _) b₀ b₁ b₁ b₂
    · by_cases hends' : thirdEnds cfg b₀ b₁ b₂ = true
      · rw [if_neg hends, if_neg hends, if_pos hends', if_pos hends']
        exact record_zero (List.cons_ne_nil _ _) b₀ b₁ b₂ b₂
      · rw [if_neg hends, if_neg hends, if_neg hends', if_neg hends']
        exact record_zero hne b₀ b₁ b₂ b₃
  exact ⟨congrArg Origin.magic hfour, congrArg Origin.encoding hfour⟩

lemma first_ne_zero (hs : s.lex.state = .lookupToken)
    (h : scanStep (δ := δ) cfg s 0 = (calls, .ok t)) : False := by
  have hs' : (recordMagic s.lex 0).state = .lookupToken := by rw [recordMagic_state, hs]
  have hreject : (react cfg (recordMagic s.lex 0) s.index 0 : Reaction δ) = .reject .unexpSymbol := by
    rw [react, hs']
    rfl
  rw [scanStep_reject hreject] at h
  cases h

/-- Five bytes tell their encoding as RFC 4627 has it where no byte of them ends a number and they are
not little endian. -/
theorem encoding_guess_iff {chunks : List (List UInt8)} {lexer : Lexer} {rest : List UInt8}
    {l : List (LexerCall δ)} (hinput : chunks.flatten = b₀ :: b₁ :: b₂ :: b₃ :: b₄ :: rest)
    (hpush : observe LexerCall.isError (lexerPushAll cfg .zero chunks) = (l, some (0, lexer))) :
    (lexer.magic = #v[b₀, b₁, b₂, b₃] ∧ lexer.encoding = patternEncoding b₀ b₁ b₂ b₃) ↔
      (secondEnds b₀ b₁ → b₁ = b₂ ∧ b₂ = b₃) ∧ (thirdEnds cfg b₀ b₁ b₂ → b₂ = b₃) ∧
        ¬(b₁ = 0 ∧ b₃ = 0) := by
  obtain ⟨calls, index, hrun⟩ := scanner_reached 0 hpush
  rw [hinput] at hrun
  obtain ⟨hmagic, hencoding⟩ := origin_of_run hrun
  have hb : b₀ ≠ 0 := by
    rintro rfl
    obtain ⟨calls', _, s₁, h₁, -, -⟩ := Transducer.run_cons_eq_ok _ hrun
    have hstep : scanStep (δ := δ) cfg ⟨.zero, 0⟩ 0 = (calls', .ok s₁) := h₁
    exact first_ne_zero rfl hstep
  rw [show lexer.magic = _ from hmagic, show lexer.encoding = _ from hencoding, recorded_eq_iff,
    ← and_assoc]
  refine and_congr_right fun hends => ?_
  rw [recorded_eq_iff.mpr hends, guess_eq_pattern_iff hb]

/-- The document `1`, a line break and three blanks, and a string of three zeros that is not
validated. -/
theorem line_break_recorded_twice :
    (∃ lexer, Meets ℚ .default ("1\n   ".toList.map Char.toUInt8) lexer [] ∧
      lexer.magic = #v[0x31, 0x0a, 0x0a, 0x20] ∧ lexer.magic ≠ #v[0x31, 0x0a, 0x20, 0x20]) ∧
    ∃ lexer, Meets ℚ { Config.default with validateUtf8 := false } [0x22, 0, 0, 0, 0x22] lexer [] ∧
      lexer.encoding = .utf32be ∧ patternEncoding 0x22 0 0 0 = .utf32le :=
  ⟨⟨_, ⟨["1\n   ".toList.map Char.toUInt8], [.tokeni 1 (.buffer 0)], rfl, rfl⟩, by decide, by decide⟩,
    _, ⟨[[0x22, 0, 0, 0, 0x22]], _, rfl, rfl⟩, by decide, by decide⟩

theorem encoding_guess_iff_true :
    ∃ lexer, Meets ℚ .default ("[true]".toList.map Char.toUInt8) lexer [] ∧
      lexer.magic = #v[0x5b, 0x74, 0x72, 0x75] ∧ lexer.encoding = .utf8 := by
  have hpush : observe LexerCall.isError (lexerPushAll .default .zero
      ["[true]".toList.map Char.toUInt8] : Program (LexerCall ℚ) _) = (_, some (0, _)) := rfl
  obtain ⟨hmagic, hencoding⟩ := (encoding_guess_iff rfl hpush).mpr (by decide)
  exact ⟨_, ⟨_, _, rfl, hpush⟩, hmagic, hencoding⟩

end FirstBytes

end Embedjson
