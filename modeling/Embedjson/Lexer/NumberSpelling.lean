import Embedjson.FractionValue
import Embedjson.Grammar.Spelling

namespace Embedjson

open Foundations DoubleArith

variable {δ : Type} [DoubleArith δ] {cfg : Config} {lex : Lexer} {text : List UInt8} {b : UInt8}
  {minus negative : Bool} {ds fs es : List UInt8} {index : ℤ} {s : Scan}

lemma isFrac_none_mod : ∀ fs ∈ (none : Option (List UInt8)), fs.length % 2 ^ 16 ≠ 0 := by simp

section Values

lemma Fields.double (h : Fields minus ds fs lex) :
    (negateIf lex.minus (fracDouble lex) : δ) = doubleOf minus ds fs none := by
  simp only [doubleOf, fracDouble, Option.elim_none, h.sign, h.int, h.frac, h.power]

lemma Fields.scaled (h : Fields minus ds fs lex) (hexp : AtExp cfg negative es lex) :
    (negateIf lex.minus (scaleByExp lex (fracDouble lex)) : δ) =
      doubleOf minus ds fs (some (negative, es)) := by
  simp only [doubleOf, fracDouble, scaleByExp, Option.elim_some, h.sign, h.int, h.frac, h.power,
    hexp.sign, hexp.value]

end Values

structure Behind (cfg : Config) (n : Numeral) (lex : Lexer) : Prop where
  reached : n.exp.elim (AtMantissa cfg n.toMantissa lex) fun e => AtExp cfg e.negative e.digits lex
  fields : Fields n.minus n.int (n.frac.getD []) lex

inductive Spelt (cfg : Config) : List UInt8 → Lexer → Prop
  | sign {lex : Lexer} (h : AtSign cfg lex) : Spelt cfg ['-'.toUInt8] lex
  | int {minus : Bool} {ds : List UInt8} {lex : Lexer} (hint : IsInt ds) (hfits : FitsInt cfg ds)
      (h : AtInt cfg minus ds lex) : Spelt cfg (minusText minus ++ ds) lex
  | frac {minus : Bool} {ds fs : List UInt8} {lex : Lexer} (hint : IsInt ds)
      (hfits : FitsInt cfg ds) (hfs : Digits fs) (h : AtFrac cfg fs lex)
      (hfields : Fields minus ds fs lex) : Spelt cfg (minusText minus ++ ds ++ '.'.toUInt8 :: fs) lex
  | expSign (m : Mantissa) {letter : UInt8} {lex : Lexer} (hfits : FitsInt cfg m.int)
      (hfrac : ∀ fs ∈ m.frac, fs.length % 2 ^ 16 ≠ 0)
      (hletter : letter = 'e'.toUInt8 ∨ letter = 'E'.toUInt8) (h : AtExpSign cfg lex)
      (hfields : Fields m.minus m.int (m.frac.getD []) lex) : Spelt cfg (m.text ++ [letter]) lex
  | exp (m : Mantissa) {letter : UInt8} {sign : Option UInt8} {es : List UInt8} {lex : Lexer}
      (hfits : FitsInt cfg m.int) (hfrac : ∀ fs ∈ m.frac, fs.length % 2 ^ 16 ≠ 0)
      (hletter : letter = 'e'.toUInt8 ∨ letter = 'E'.toUInt8)
      (hsign : ∀ b ∈ sign, b = '+'.toUInt8 ∨ b = '-'.toUInt8) (hes : Digits es)
      (hne : sign = none → es ≠ []) (hlimit : decimal es ≤ expLimit (sign = some '-'.toUInt8))
      (h : AtExp cfg (sign = some '-'.toUInt8) es lex)
      (hfields : Fields m.minus m.int (m.frac.getD []) lex) :
      Spelt cfg (m.text ++ letter :: sign.toList ++ es) lex

/-- The byte belongs to the number, or it turns the number into a big one, or the number is handed
over. -/
def Continued (cfg : Config) (text : List UInt8) (b : UInt8) : Reaction δ → Prop
  | .consume calls lex =>
    calls = [] ∧ Spelt cfg (text ++ [b]) lex ∨ ∃ p v, calls = [.tokenbnBegin p v]
  | .unread calls lex => AtLookup cfg lex ∧ ∃ n : Numeral, text = n.text ∧ n.Readable cfg ∧
      ¬n.Continues b ∧ calls.map LexerCall.forget = n.lexeme.calls
  | .reject _ => True

omit [DoubleArith δ] in
lemma Spelt.recordMagic (h : Spelt cfg text lex) (b : UInt8) : Spelt cfg text (recordMagic lex b) := by
  cases h with
  | sign h => exact .sign (h.recordMagic b)
  | int hint hfits h => exact .int hint hfits (h.recordMagic b)
  | frac hint hfits hfs h hfields =>
    exact .frac hint hfits hfs (h.recordMagic b) (hfields.recordMagic b)
  | expSign m hfits hfrac hletter h hfields =>
    exact .expSign m hfits hfrac hletter (h.recordMagic b) (hfields.recordMagic b)
  | exp m hfits hfrac hletter hsign hes hne hlimit h hfields =>
    exact .exp m hfits hfrac hletter hsign hes hne hlimit (h.recordMagic b) (hfields.recordMagic b)

omit [DoubleArith δ] in
lemma Behind.recordMagic {n : Numeral} (h : Behind cfg n lex) (b : UInt8) :
    Behind cfg n (recordMagic lex b) := by
  refine ⟨?_, h.fields.recordMagic b⟩
  have hreached := h.reached
  cases hexp : n.exp with
  | some e =>
    rw [hexp] at hreached
    exact AtExp.recordMagic hreached b
  | none =>
    rw [hexp, Option.elim_none, AtMantissa] at hreached
    rw [Option.elim_none, AtMantissa]
    cases hfrac : n.frac with
    | none =>
      rw [hfrac] at hreached
      exact AtInt.recordMagic hreached b
    | some fs =>
      rw [hfrac] at hreached
      exact AtFrac.recordMagic hreached b

section Widths

variable (hbits : 8 ≤ cfg.intBits)

include hbits

lemma Behind.ends {n : Numeral} (h : Behind cfg n lex) (hn : n.Readable cfg) (hb : ¬n.Continues b)
    (index : ℤ) : ∃ (f : LexerCall δ) (lex' : Lexer),
      react cfg lex index b = .unread [f] lex' ∧ [f.forget] = n.lexeme.calls ∧ AtLookup cfg lex' := by
  obtain ⟨⟨minus, ds, frac, hint, hfrac⟩, exp⟩ := n
  obtain ⟨hreached, hfields⟩ := h
  simp only [Numeral.Continues, not_or, not_and] at hb
  obtain ⟨hdigit, hrest⟩ := hb
  cases exp with
  | some e =>
    have hreact := hreached.react_eq (δ := δ) index b
    simp only [Option.elim_some] at hreached
    have hne : lex.expNotEmpty = true := hreached.notEmpty.mpr e.isDigits.2
    rw [Reaction.ofExp, if_neg hdigit, if_neg (not_not.mpr hne)] at hreact
    refine ⟨_, _, hreact, ?_, tidy_of_unread hbits hreached.tidy hreact, rfl⟩
    simp only [LexerCall.forget, hfields.scaled hreached]
    simp [Numeral.lexeme, Numeral.double, Lexeme.calls]
  | none =>
    obtain ⟨hletter, hpoint⟩ := hrest rfl
    cases frac with
    | none =>
      obtain ⟨lex', hreact, hlex⟩ := AtInt.end (δ := δ) hbits hreached hdigit (hpoint rfl)
        (by tauto) index
      exact ⟨_, lex', hreact, rfl, hlex⟩
    | some fs =>
      have hfs : fs.length % 2 ^ 16 ≠ 0 := hn.bounded.frac fs rfl
      have hreact := AtFrac.react_eq (δ := δ) hreached index b
      rw [Reaction.ofFrac, if_neg hdigit, if_neg (by tauto), if_neg (hreached.power.trans_ne hfs)]
        at hreact
      refine ⟨_, _, hreact, ?_, tidy_of_unread hbits hreached.tidy hreact, rfl⟩
      simp only [LexerCall.forget, hfields.double]
      simp [Numeral.lexeme, Numeral.double, Lexeme.calls]

section Bytes

lemma AtSign.spelt (h : AtSign cfg lex) (b : UInt8) (index : ℤ) :
    Continued cfg ['-'.toUInt8] b (react cfg lex index b : Reaction δ) := by
  by_cases hb : isDigit b = true
  · obtain ⟨lex', hreact, hlex⟩ := h.pushDigit (δ := δ) hbits hb index
    rw [hreact]
    have hread : Spelt cfg (minusText true ++ [b]) lex' :=
      .int (isInt_singleton hb) (fitsInt_singleton hbits hb) hlex
    exact .inl ⟨rfl, hread⟩
  · rw [h.other hb]
    trivial

lemma AtInt.spelt (hint : IsInt ds) (hfits : FitsInt cfg ds) (h : AtInt cfg minus ds lex)
    (b : UInt8) (index : ℤ) :
    Continued cfg (minusText minus ++ ds) b (react cfg lex index b : Reaction δ) := by
  have hkeeps (hb : ¬isDigit b = true) : (react cfg lex index b : Reaction δ).Keeps fun lex' =>
      InNumber lex' → Fields minus ds [] lex' := react_keeps (.inl ⟨h.state, hb⟩) h.fields
  by_cases hb : isDigit b = true
  · by_cases hzero : decimal ds = 0
    · rw [h.zero hb hzero]
      trivial
    by_cases hguard : decimal ds ≤ cfg.intMax / 10 - digit b
    · obtain ⟨lex', hreact, hlex⟩ := h.pushDigit (δ := δ) hbits hb hzero hguard index
      rw [hreact]
      refine .inl ⟨rfl, ?_⟩
      rw [List.append_assoc]
      exact .int (hint.concat hzero hb) ((fitsInt_concat hint.digits hb).mpr hguard) hlex
    by_cases hbignum : cfg.bignum = true
    · obtain ⟨lex', hreact, -⟩ := h.big (δ := δ) hbits hb hzero (not_le.mp hguard) hbignum index
      rw [hreact]
      exact .inr ⟨_, _, rfl⟩
    · rw [h.overflow hbits hb hzero (not_le.mp hguard) hbignum]
      trivial
  by_cases hpoint : b = '.'.toUInt8
  · obtain ⟨lex', hreact, hlex⟩ := h.point (δ := δ) hbits index
    have hfields := hkeeps hb
    rw [hpoint, hreact] at hfields ⊢
    exact .inl ⟨rfl, .frac hint hfits (List.forall_mem_nil _) hlex
      (hfields (.inr (.inr (.inl hlex.state))))⟩
  by_cases hletter : b = 'e'.toUInt8 ∨ b = 'E'.toUInt8
  · obtain ⟨lex', hreact, hlex⟩ := h.letter (δ := δ) hbits hletter index
    have hfields := hkeeps hb
    rw [hreact] at hfields ⊢
    rw [← integerMantissa_text minus hint]
    exact .inl ⟨rfl, .expSign _ hfits isFrac_none_mod hletter hlex
      (hfields (.inr (.inr (.inr (.inl hlex.state)))))⟩
  · let n : Numeral := ⟨integerMantissa minus hint, none⟩
    have hn : n.Readable cfg := ⟨hfits, isFrac_none_mod, by simp [n]⟩
    have hstop : ¬n.Continues b := by simp [Numeral.Continues, hb, hpoint, hletter]
    obtain ⟨f, lex', hreact, hf, hlex⟩ := Behind.ends (δ := δ) (n := n) hbits ⟨h, h.fields⟩ hn hstop index
    rw [hreact]
    refine ⟨hlex, n, ?_, hn, hstop, hf⟩
    rw [Numeral.text, integerMantissa_text]
    exact (List.append_nil _).symm

lemma AtFrac.spelt (hint : IsInt ds) (hfits : FitsInt cfg ds) (hfs : Digits fs)
    (h : AtFrac cfg fs lex) (hfields : Fields minus ds fs lex) (b : UInt8) (index : ℤ) :
    Continued cfg (minusText minus ++ ds ++ '.'.toUInt8 :: fs) b
      (react cfg lex index b : Reaction δ) := by
  by_cases hb : isDigit b = true
  · have hkeeps : (react cfg lex index b : Reaction δ).Keeps (Fields minus ds (fs ++ [b])) :=
      frac_keeps h.state hb hfields
    obtain ⟨lex', hreact, hlex⟩ := h.pushDigit (δ := δ) hbits hb index
    rw [hreact] at hkeeps ⊢
    refine .inl ⟨rfl, ?_⟩
    rw [List.append_assoc _ _ [b], List.cons_append]
    exact .frac hint hfits (digits_append.mpr ⟨hfs, digits_singleton.mpr hb⟩) hlex hkeeps
  by_cases hempty : fs.length % 2 ^ 16 = 0
  · rw [h.empty hb hempty]
    trivial
  let m := fractionMantissa minus hint ⟨hfs, ne_nil_of_length_mod hempty⟩
  have hfrac : ∀ gs ∈ m.frac, gs.length % 2 ^ 16 ≠ 0 := by simpa [m, fractionMantissa] using hempty
  by_cases hletter : b = 'e'.toUInt8 ∨ b = 'E'.toUInt8
  · have hkeeps : (react cfg lex index b : Reaction δ).Keeps fun lex' =>
        InNumber lex' → Fields minus ds fs lex' := react_keeps (.inr (.inl ⟨h.state, hb⟩)) hfields
    obtain ⟨lex', hreact, hlex⟩ := h.letter (δ := δ) hbits hletter hempty index
    rw [hreact] at hkeeps ⊢
    exact .inl ⟨rfl, .expSign m hfits hfrac hletter hlex
      (hkeeps (.inr (.inr (.inr (.inl hlex.state)))))⟩
  · let n : Numeral := ⟨m, none⟩
    have hn : n.Readable cfg := ⟨hfits, hfrac, by simp [n]⟩
    have hstop : ¬n.Continues b := by
      simp [Numeral.Continues, hb, hletter, n, m, fractionMantissa]
    obtain ⟨f, lex', hreact, hf, hlex⟩ := Behind.ends (δ := δ) (n := n) hbits ⟨h, hfields⟩ hn hstop index
    rw [hreact]
    exact ⟨hlex, n, (List.append_nil _).symm, hn, hstop, hf⟩

lemma AtExpSign.spelt (m : Mantissa) {letter : UInt8} (hfits : FitsInt cfg m.int)
    (hfrac : ∀ fs ∈ m.frac, fs.length % 2 ^ 16 ≠ 0)
    (hletter : letter = 'e'.toUInt8 ∨ letter = 'E'.toUInt8) (h : AtExpSign cfg lex)
    (hfields : Fields m.minus m.int (m.frac.getD []) lex) (b : UInt8) (index : ℤ) :
    Continued cfg (m.text ++ [letter]) b (react cfg lex index b : Reaction δ) := by
  have hkeeps : (react cfg lex index b : Reaction δ).Keeps fun lex' =>
      InNumber lex' → Fields m.minus m.int (m.frac.getD []) lex' :=
    react_keeps (.inr (.inr h.state)) hfields
  have hzero (negative : Bool) : decimal [] ≤ expLimit negative := by simp
  have hsigned {lex' : Lexer} (hb : b = '+'.toUInt8 ∨ b = '-'.toUInt8)
      (hreact : react cfg lex index b = (.consume [] lex' : Reaction δ))
      (hlex : AtExp cfg (some b = some '-'.toUInt8) [] lex') :
      Continued cfg (m.text ++ [letter]) b (react cfg lex index b : Reaction δ) := by
    rw [hreact] at hkeeps ⊢
    have hread : Spelt cfg (m.text ++ letter :: (some b).toList ++ []) lex' :=
      .exp m hfits hfrac hletter (by simpa using hb) (List.forall_mem_nil _) (by simp) (hzero _) hlex
        (hkeeps (.inr (.inr (.inr (.inr hlex.state)))))
    exact .inl ⟨rfl, by simpa using hread⟩
  by_cases hminus : b = '-'.toUInt8
  · obtain ⟨lex', hreact, hlex⟩ := h.pushMinus (δ := δ) hbits index
    subst hminus
    exact hsigned (.inr rfl) hreact hlex
  by_cases hplus : b = '+'.toUInt8
  · obtain ⟨lex', hreact, hlex⟩ := h.pushPlus (δ := δ) hbits index
    subst hplus
    exact hsigned (.inl rfl) hreact hlex
  by_cases hb : isDigit b = true
  · obtain ⟨lex', hreact, hlex⟩ := h.firstDigit (δ := δ) hbits hb index
    rw [hreact] at hkeeps ⊢
    have hsmall : decimal [b] ≤ expLimit (decide ((none : Option UInt8) = some '-'.toUInt8)) := by
      have hdigit := digit_range hb
      simp [decimal, expLimit]
      omega
    have hread : Spelt cfg (m.text ++ letter :: (none : Option UInt8).toList ++ [b]) lex' :=
      .exp m hfits hfrac hletter isSign_none (digits_singleton.mpr hb) (by simp) hsmall hlex
        (hkeeps (.inr (.inr (.inr (.inr hlex.state)))))
    exact .inl ⟨rfl, by simpa using hread⟩
  · rw [h.other hminus hb hplus]
    trivial

lemma AtExp.spelt (m : Mantissa) {letter : UInt8} {sign : Option UInt8} (hfits : FitsInt cfg m.int)
    (hfrac : ∀ fs ∈ m.frac, fs.length % 2 ^ 16 ≠ 0)
    (hletter : letter = 'e'.toUInt8 ∨ letter = 'E'.toUInt8)
    (hsign : ∀ b ∈ sign, b = '+'.toUInt8 ∨ b = '-'.toUInt8) (hes : Digits es)
    (hlimit : decimal es ≤ expLimit (sign = some '-'.toUInt8))
    (h : AtExp cfg (sign = some '-'.toUInt8) es lex)
    (hfields : Fields m.minus m.int (m.frac.getD []) lex) (b : UInt8) (index : ℤ) :
    Continued cfg (m.text ++ letter :: sign.toList ++ es) b
      (react cfg lex index b : Reaction δ) := by
  by_cases hb : isDigit b = true
  · have hesb : Digits (es ++ [b]) := digits_append.mpr ⟨hes, digits_singleton.mpr hb⟩
    by_cases hlimit' : decimal (es ++ [b]) ≤ expLimit (sign = some '-'.toUInt8)
    · have hkeeps : (react cfg lex index b : Reaction δ).Keeps
        (Fields m.minus m.int (m.frac.getD [])) := exp_keeps h.state hb hfields
      obtain ⟨lex', hreact, hlex⟩ := h.pushDigit (δ := δ) hbits hb hlimit' index
      rw [hreact] at hkeeps ⊢
      refine .inl ⟨rfl, ?_⟩
      rw [List.append_assoc _ es]
      exact .exp m hfits hfrac hletter hsign hesb (by simp) hlimit' hlex hkeeps
    · rw [h.overflow hb (not_le.mp hlimit')]
      trivial
  by_cases hempty : es = []
  · subst hempty
    rw [h.empty hb]
    trivial
  · let n : Numeral := ⟨m, some ⟨letter, sign, es, hletter, hsign, hes, hempty⟩⟩
    have hn : n.Readable cfg := by
      refine ⟨hfits, hfrac, ?_⟩
      simpa [n, Exponent.negative] using hlimit
    have hstop : ¬n.Continues b := by simp [Numeral.Continues, hb, n]
    obtain ⟨f, lex', hreact, hf, hlex⟩ := Behind.ends (δ := δ) (n := n) hbits ⟨h, hfields⟩ hn hstop index
    rw [hreact]
    exact ⟨hlex, n, List.append_assoc _ _ _, hn, hstop, hf⟩

lemma Spelt.continued (h : Spelt cfg text lex) (b : UInt8) (index : ℤ) :
    Continued cfg text b (react cfg lex index b : Reaction δ) := by
  cases h with
  | sign h => exact h.spelt hbits b index
  | int hint hfits h => exact h.spelt hbits hint hfits b index
  | frac hint hfits hfs h hfields => exact h.spelt hbits hint hfits hfs hfields b index
  | expSign m hfits hfrac hletter h hfields => exact h.spelt hbits m hfits hfrac hletter hfields b index
  | exp m hfits hfrac hletter hsign hes _ hlimit h hfields =>
    exact h.spelt hbits m hfits hfrac hletter hsign hes hlimit hfields b index

end Bytes

section Runs

lemma moves_behind (h : AtLookup cfg s.lex) {n : Numeral} (hn : n.Readable cfg) :
    Moves cfg s n.text ([] : List (LexerCall δ)) (Behind cfg n) := by
  have hmantissa := moves_mantissa_fields (δ := δ) hbits h n.toMantissa hn.fits
  rw [Numeral.text]
  cases hexp : n.exp with
  | none =>
    obtain ⟨lex, hrun, hlex, hfields⟩ := hmantissa
    rw [Option.elim_none, List.append_nil]
    refine ⟨lex, hrun, ?_, hfields⟩
    rw [hexp]
    exact hlex
  | some e =>
    have htext : n.toMantissa.text ++ e.text =
        n.toMantissa.text ++ [e.letter] ++ (e.sign.toList ++ e.digits) := by
      simp [Exponent.text]
    have hletter := hmantissa.append fun lex hlex =>
      moves_letter_fields (s := ⟨lex, _⟩) hbits hlex.1 hn.bounded.frac e.isLetter hlex.2
    have hall := hletter.append fun lex hlex =>
      moves_exponent_fields (s := ⟨lex, _⟩) hbits hlex.1 hlex.2 e (hn.bounded.exp e hexp)
    obtain ⟨lex, hrun, hlex, hfields⟩ := hall
    rw [Option.elim_some, htext]
    refine ⟨lex, hrun, ?_, hfields⟩
    rw [hexp]
    exact hlex

lemma moves_fraction (h : AtLookup cfg s.lex) (minus : Bool) (hint : IsInt ds)
    (hfits : FitsInt cfg ds) (hfs : Digits fs) :
    Moves cfg s (minusText minus ++ ds ++ '.'.toUInt8 :: fs) ([] : List (LexerCall δ)) fun lex =>
      AtFrac cfg fs lex ∧ Fields minus ds fs lex := by
  have hpoint {s : Scan} (h : AtInt cfg minus ds s.lex) :
      Moves (δ := δ) cfg s ['.'.toUInt8] [] fun lex => AtFrac cfg [] lex ∧ Fields minus ds [] lex := by
    obtain ⟨lex, hreact, hlex⟩ := (h.recordMagic '.'.toUInt8).point (δ := δ) hbits s.index
    exact (moves_one hreact hlex).keeps (fun lex hlex => .inr (.inr (.inl hlex.state)))
      (.inl ⟨h.state, by decide⟩) h.fields
  have hdigits {s : Scan} (h : AtFrac cfg [] s.lex) (hfields : Fields minus ds [] s.lex) :
      Moves (δ := δ) cfg s fs [] fun lex =>
        AtFrac cfg ([] ++ fs) lex ∧ Fields minus ds ([] ++ fs) lex :=
    moves_frac_keeping hbits
      (fun p lex index b hs hb hlex => frac_keeps (by simpa using hs) hb (hlex.recordMagic b)) h
      hfields hfs
  exact (moves_integer hbits h hint hfits minus).append fun lex hlex =>
    (hpoint hlex).append fun lex hlex => hdigits (s := ⟨lex, _⟩) hlex.1 hlex.2

lemma moves_signed (h : AtExpSign cfg s.lex) (hfields : Fields minus ds fs s.lex)
    (hb : b = '+'.toUInt8 ∨ b = '-'.toUInt8) :
    Moves cfg s [b] ([] : List (LexerCall δ)) fun lex =>
      AtExp cfg (b = '-'.toUInt8) [] lex ∧ Fields minus ds fs lex := by
  have hstate (lex : Lexer) (hlex : AtExp cfg (b = '-'.toUInt8) [] lex) : InNumber lex :=
    .inr (.inr (.inr (.inr hlex.state)))
  rcases hb with rfl | rfl
  · obtain ⟨lex, hreact, hlex⟩ := (h.recordMagic '+'.toUInt8).pushPlus (δ := δ) hbits s.index
    exact (moves_one hreact hlex).keeps hstate (.inr (.inr h.state)) hfields
  · obtain ⟨lex, hreact, hlex⟩ := (h.recordMagic '-'.toUInt8).pushMinus (δ := δ) hbits s.index
    exact (moves_one hreact hlex).keeps hstate (.inr (.inr h.state)) hfields

lemma moves_exp_sign (h : AtLookup cfg s.lex) (m : Mantissa) {letter : UInt8}
    (hfits : FitsInt cfg m.int) (hfrac : ∀ fs ∈ m.frac, fs.length % 2 ^ 16 ≠ 0)
    (hletter : letter = 'e'.toUInt8 ∨ letter = 'E'.toUInt8) (hb : b = '+'.toUInt8 ∨ b = '-'.toUInt8) :
    Moves cfg s (m.text ++ [letter, b]) ([] : List (LexerCall δ)) fun lex =>
      AtExp cfg (b = '-'.toUInt8) [] lex ∧ Fields m.minus m.int (m.frac.getD []) lex := by
  have hmantissa := moves_mantissa_fields (δ := δ) hbits h m hfits
  have hall := (hmantissa.append fun lex hlex =>
    moves_letter_fields (s := ⟨lex, _⟩) hbits hlex.1 hfrac hletter hlex.2).append fun lex hlex =>
      moves_signed (s := ⟨lex, _⟩) hbits hlex.1 hlex.2 hb
  rw [List.append_assoc] at hall
  exact hall

lemma moves_stub {v : δ} (h : AtLookup cfg s.lex) (hv : Stub cfg text v) :
    Moves cfg s text ([] : List (LexerCall δ)) fun lex =>
      (lex.state = .inNumberFrac ∧ negateIf lex.minus (fracDouble lex) = v) ∨
      (lex.state = .inNumberExp ∧ negateIf lex.minus (scaleByExp lex (fracDouble lex)) = v) := by
  cases hv with
  | frac hint hfits hfs hlen =>
    obtain ⟨lex, hrun, hlex, hfields⟩ := moves_fraction (δ := δ) hbits h _ hint hfits hfs
    exact ⟨lex, hrun, .inl ⟨hlex.state, hfields.double⟩⟩
  | exp m hfits hfrac hletter hsign =>
    obtain ⟨lex, hrun, hlex, hfields⟩ := moves_exp_sign (δ := δ) hbits h m hfits hfrac hletter hsign
    exact ⟨lex, hrun, .inr ⟨hlex.state, hfields.scaled hlex⟩⟩

end Runs

end Widths

end Embedjson
