import Embedjson.NumberAcceptance
import Embedjson.NumberTokens

namespace Embedjson

open Foundations Foundations.Program

variable {δ : Type} [DoubleArith δ] {cfg : Config} {lex : Lexer} {b : UInt8} {minus : Bool}
  {ds fs p : List UInt8} {index : ℤ} {s t : Scan} {calls : List (LexerCall δ)}

/-- `(int_value + frac_value * 10^-frac_power) * 10^exp_value` with both signs, over the rationals. -/
def Lexer.exactValue (lex : Lexer) : ℚ :=
  (if lex.minus then -1 else 1) * ((lex.intValue + lex.fracValue * 10 ^ (-(lex.fracPower : ℤ))) *
    10 ^ signed lex.expMinus lex.expValue)

def Numeral.value (n : Numeral) : ℚ :=
  (if n.minus then -1 else 1) *
    ((decimal n.int + decimal (n.frac.getD []) / 10 ^ (n.frac.getD []).length) *
      10 ^ signed (n.exp.elim false Exponent.negative) (decimal (n.exp.elim [] Exponent.digits)))

structure Fields (minus : Bool) (ds fs : List UInt8) (lex : Lexer) : Prop where
  sign : lex.minus = minus
  int : lex.intValue = decimal ds
  frac : (lex.fracValue : ℤ) = decimal fs % 2 ^ 64
  power : lex.fracPower = fs.length % 2 ^ 16

structure Holds (n : Numeral) (lex : Lexer) : Prop where
  fields : Fields n.minus n.int (n.frac.getD []) lex
  expSign : lex.expMinus = n.exp.elim false Exponent.negative
  exp : (lex.expValue : ℤ) = decimal (n.exp.elim [] Exponent.digits)

section Steps

lemma Fields.recordMagic (h : Fields minus ds fs lex) (b : UInt8) :
    Fields minus ds fs (recordMagic lex b) := by
  obtain ⟨_, _, _, heq⟩ := recordMagic_eq lex b
  exact heq ▸ ⟨h.sign, h.int, h.frac, h.power⟩

omit [DoubleArith δ] in
lemma AtInt.fields (h : AtInt cfg minus ds lex) : Fields minus ds [] lex := by
  have htidy := h.tidy
  simp only [Tidy, h.state] at htidy
  obtain ⟨-, ⟨hvalue, hpower⟩, -⟩ := htidy
  exact ⟨h.sign, h.value, by rw [hvalue]; rfl, hpower⟩

lemma frac_keeps (hs : lex.state = .inNumberFrac) (hb : isDigit b = true) (h : Fields minus ds p lex) :
    (react cfg lex index b : Reaction δ).Keeps (Fields minus ds (p ++ [b])) := by
  rw [react, hs]
  dsimp only
  rw [Reaction.ofFrac, if_pos hb]
  refine ⟨h.sign, h.int, ?_, ?_⟩
  · change ((((10 * (lex.fracValue : ℤ) + digit b) % 2 ^ 64).toNat : ℕ) : ℤ) = _
    rw [decimal_concat, h.frac]
    omega
  · change (lex.fracPower + 1) % 2 ^ 16 = _
    rw [h.power, Nat.mod_add_mod, List.length_append, List.length_singleton]

lemma exp_keeps (hs : lex.state = .inNumberExp) (hb : isDigit b = true) (h : Fields minus ds fs lex) :
    (react cfg lex index b : Reaction δ).Keeps (Fields minus ds fs) := by
  rw [react, hs]
  dsimp only
  rw [Reaction.ofExp, if_pos hb]
  exact .ite (fun _ => trivial) fun _ => ⟨h.sign, h.int, h.frac, h.power⟩

lemma react_keeps (hs : lex.state = .inNumber ∧ ¬isDigit b = true ∨
      lex.state = .inNumberFrac ∧ ¬isDigit b = true ∨ lex.state = .inNumberExpSign)
    (h : Fields minus ds fs lex) :
    (react cfg lex index b : Reaction δ).Keeps fun lex' => InNumber lex' → Fields minus ds fs lex' := by
  have hsame (lex' : Lexer) (hlex : lex'.minus = lex.minus ∧ lex'.intValue = lex.intValue ∧
      lex'.fracValue = lex.fracValue ∧ lex'.fracPower = lex.fracPower) :
      InNumber lex' → Fields minus ds fs lex' := by
    obtain ⟨hminus, hint, hfrac, hpower⟩ := hlex
    exact fun _ => ⟨hminus.trans h.sign, hint.trans h.int, hfrac ▸ h.frac, hpower.trans h.power⟩
  have hleft {lex' : Lexer} (hlex : lex'.state = .lookupToken) :
      InNumber lex' → Fields minus ds fs lex' := by
    intro hin
    simp [InNumber, hlex] at hin
  rw [react]
  rcases hs with ⟨hs, hb⟩ | ⟨hs, hb⟩ | hs <;> rw [hs] <;> dsimp only
  · rw [Reaction.ofNumber, if_neg hb]
    exact .ite (fun _ => hsame _ ⟨rfl, rfl, rfl, rfl⟩) fun _ =>
      .ite (fun _ => hsame _ ⟨rfl, rfl, rfl, rfl⟩) fun _ => hleft rfl
  · rw [Reaction.ofFrac, if_neg hb]
    exact .ite (fun _ => .ite (fun _ => trivial) fun _ => hsame _ ⟨rfl, rfl, rfl, rfl⟩) fun _ =>
      .ite (fun _ => trivial) fun _ => hleft rfl
  · exact .ite (fun _ => hsame _ ⟨rfl, rfl, rfl, rfl⟩) fun _ =>
      .ite (fun _ => hsame _ ⟨rfl, rfl, rfl, rfl⟩) fun _ => .ite (fun _ => trivial) fun _ =>
        hsame _ ⟨rfl, rfl, rfl, rfl⟩

end Steps

section Widths

variable (hbits : 8 ≤ cfg.intBits)

include hbits

section Runs

omit hbits in
lemma react_unread_calls {lex' : Lexer} (h : react cfg lex index b = .unread calls lex') :
    calls ≠ [] := by
  cases hin : lex.inside with
  | true =>
    have hstays := react_staysInside (δ := δ) cfg hin index b
    rw [h] at hstays
    exact hstays.elim
  | false =>
    have hreact := h
    rw [react] at h
    cases hs : lex.state with
    | lookupToken => exact absurd hreact (react_ne_unread hs index b calls lex')
    | inString | inStringEscape | inStringUnicodeEscape => simp [Lexer.inside, hs] at hin
    | inNumberSign | inNumberExpSign | inTrue | inFalse | inNull =>
      simp only [hs, Reaction.ofNumberSign, Reaction.ofExpSign, Reaction.ofKeyword] at h
      split_ifs at h
    | inNumber | inNumberFrac | inNumberExp | inBigNumber =>
      simp only [hs, Reaction.ofNumber, Reaction.ofFrac, Reaction.ofExp, Reaction.ofBigNumber] at h
      split_ifs at h
      cases h
      exact List.cons_ne_nil _ _

omit hbits in
lemma Moves.keeps {P : Lexer → Prop} (h : Moves cfg s [b] ([] : List (LexerCall δ)) P)
    (hP : ∀ lex, P lex → InNumber lex)
    (hs : s.lex.state = .inNumber ∧ ¬isDigit b = true ∨
      s.lex.state = .inNumberFrac ∧ ¬isDigit b = true ∨ s.lex.state = .inNumberExpSign)
    (hfields : Fields minus ds fs s.lex) :
    Moves cfg s [b] ([] : List (LexerCall δ)) fun lex => P lex ∧ Fields minus ds fs lex := by
  obtain ⟨lex, hrun, hlex⟩ := h
  refine ⟨lex, hrun, hlex, ?_⟩
  have hs' : (recordMagic s.lex b).state = .inNumber ∧ ¬isDigit b = true ∨
      (recordMagic s.lex b).state = .inNumberFrac ∧ ¬isDigit b = true ∨
      (recordMagic s.lex b).state = .inNumberExpSign := by
    rw [recordMagic_state]
    exact hs
  have hkeeps : (react cfg (recordMagic s.lex b) s.index b : Reaction δ).Keeps fun lex' =>
      InNumber lex' → Fields minus ds fs lex' := react_keeps hs' (hfields.recordMagic b)
  rw [Transducer.run_singleton] at hrun
  cases hreact : (react cfg (recordMagic s.lex b) s.index b : Reaction δ) with
  | consume calls lex' =>
    rw [hreact] at hkeeps
    have heq := (scanStep_consume hreact).symm.trans hrun
    cases heq
    exact hkeeps (hP _ hlex)
  | reject code =>
    have heq := (scanStep_reject hreact).symm.trans hrun
    cases heq
  | unread calls lex' =>
    obtain ⟨more, heq, -⟩ := scanStep_unread_calls hreact
    have hnil := congrArg Prod.fst hrun
    rw [show ((scanner cfg).step s b).1 = calls ++ more from heq] at hnil
    exact absurd (List.append_eq_nil_iff.mp hnil).1 (react_unread_calls hreact)

lemma moves_mantissa_fields (h : AtLookup cfg s.lex) (m : Mantissa) (hfits : FitsInt cfg m.int) :
    Moves cfg s m.text ([] : List (LexerCall δ)) fun lex =>
      AtMantissa cfg m lex ∧ Fields m.minus m.int (m.frac.getD []) lex := by
  have hint : Moves (δ := δ) cfg s (minusText m.minus ++ m.int) [] (AtInt cfg m.minus m.int) :=
    moves_integer hbits h m.isInt hfits m.minus
  rw [Mantissa.text]
  cases hfrac : m.frac with
  | none =>
    obtain ⟨lex, hrun, hlex⟩ := hint
    rw [fracText, List.append_nil]
    refine ⟨lex, hrun, ?_, hlex.fields⟩
    rw [AtMantissa, hfrac]
    exact hlex
  | some fs =>
    have hpoint {s : Scan} (h : AtInt cfg m.minus m.int s.lex) :
        Moves (δ := δ) cfg s ['.'.toUInt8] [] fun lex =>
          AtFrac cfg [] lex ∧ Fields m.minus m.int [] lex := by
      obtain ⟨lex, hreact, hlex⟩ := (h.recordMagic '.'.toUInt8).point (δ := δ) hbits s.index
      exact (moves_one hreact hlex).keeps (fun lex hlex => .inr (.inr (.inl hlex.state)))
        (.inl ⟨h.state, by decide⟩) h.fields
    have hdigits {s : Scan} (h : AtFrac cfg [] s.lex) (hfields : Fields m.minus m.int [] s.lex) :
        Moves (δ := δ) cfg s fs [] fun lex =>
          AtFrac cfg ([] ++ fs) lex ∧ Fields m.minus m.int ([] ++ fs) lex :=
      moves_frac_keeping hbits
        (fun p lex index b hs hb hlex => frac_keeps (by simpa using hs) hb (hlex.recordMagic b)) h
        hfields (m.isFrac fs hfrac).1
    have hall := hint.append fun lex hlex => (hpoint hlex).append fun lex hlex =>
      hdigits (s := ⟨lex, _⟩) hlex.1 hlex.2
    obtain ⟨lex, hrun, hlex, hfields⟩ := hall
    refine ⟨lex, hrun, ?_, hfields⟩
    rw [AtMantissa, hfrac]
    exact hlex

lemma moves_exponent_fields (h : AtExpSign cfg s.lex) (hfields : Fields minus ds fs s.lex)
    (e : Exponent) (hlimit : decimal e.digits ≤ expLimit e.negative) :
    Moves cfg s (e.sign.toList ++ e.digits) ([] : List (LexerCall δ)) fun lex =>
      AtExp cfg e.negative e.digits lex ∧ Fields minus ds fs lex := by
  obtain ⟨x, p, q, htext, hdigits, -, hmoves⟩ := moves_sign (δ := δ) hbits h e
  obtain ⟨hp, hq⟩ := digits_append.mp (hdigits ▸ e.isDigits.1)
  rw [hdigits] at hlimit
  rw [htext, hdigits]
  have hfirst := hmoves.keeps (fun lex hlex => .inr (.inr (.inr (.inr hlex.state))))
    (.inr (.inr h.state)) hfields
  exact hfirst.append fun lex hlex => moves_exp_keeping hbits
    (fun lex index b hs hb hlex => exp_keeps (by simpa using hs) hb (hlex.recordMagic b)) hlex.1 hlex.2
    hp hq hlimit

lemma moves_letter_fields {m : Mantissa} (h : AtMantissa cfg m s.lex)
    (hfrac : ∀ fs ∈ m.frac, fs.length % 2 ^ 16 ≠ 0) (hb : b = 'e'.toUInt8 ∨ b = 'E'.toUInt8)
    (hfields : Fields minus ds fs s.lex) :
    Moves cfg s [b] ([] : List (LexerCall δ)) fun lex =>
      AtExpSign cfg lex ∧ Fields minus ds fs lex := by
  have hdigit : ¬isDigit b = true := by rcases hb with rfl | rfl <;> decide
  refine (moves_letter hbits h hfrac hb).keeps (fun lex hlex => .inr (.inr (.inr (.inl hlex.state))))
    ?_ hfields
  rw [AtMantissa] at h
  cases hm : m.frac with
  | none =>
    rw [hm] at h
    exact .inl ⟨h.state, hdigit⟩
  | some fs =>
    rw [hm] at h
    exact .inr (.inl ⟨h.state, hdigit⟩)

omit [DoubleArith δ] hbits in
lemma AtMantissa.expClear {m : Mantissa} (h : AtMantissa cfg m lex) : ExpClear lex := by
  rw [AtMantissa] at h
  cases hm : m.frac with
  | none =>
    rw [hm] at h
    have htidy := h.tidy
    simp only [Tidy, h.state] at htidy
    exact htidy.2.2
  | some fs =>
    rw [hm] at h
    have htidy := h.tidy
    simp only [Tidy, h.state] at htidy
    exact htidy.2

lemma moves_number (h : AtLookup cfg s.lex) (n : Numeral) (hfits : FitsInt cfg n.int)
    (hfrac : n.exp ≠ none → ∀ fs ∈ n.frac, fs.length % 2 ^ 16 ≠ 0)
    (hexp : ∀ e ∈ n.exp, decimal e.digits ≤ expLimit e.negative) :
    Moves cfg s n.text ([] : List (LexerCall δ)) (Holds n) := by
  have hmantissa := moves_mantissa_fields (δ := δ) hbits h n.toMantissa hfits
  rw [Numeral.text]
  cases hn : n.exp with
  | none =>
    obtain ⟨lex, hrun, hlex, hfields⟩ := hmantissa
    obtain ⟨hvalue, hminus, -⟩ := hlex.expClear
    rw [Option.elim_none, List.append_nil]
    refine ⟨lex, hrun, hfields, ?_, ?_⟩
    · rw [hn]
      exact hminus
    · rw [hn, hvalue]
      rfl
  | some e =>
    have htext : n.toMantissa.text ++ e.text =
        n.toMantissa.text ++ [e.letter] ++ (e.sign.toList ++ e.digits) := by
      simp [Exponent.text]
    have hletter := hmantissa.append fun lex hlex =>
      moves_letter_fields (s := ⟨lex, _⟩) hbits hlex.1 (hfrac (by simp [hn])) e.isLetter hlex.2
    have hall := hletter.append fun lex hlex =>
      moves_exponent_fields (s := ⟨lex, _⟩) hbits hlex.1 hlex.2 e (hexp e hn)
    obtain ⟨lex, hrun, hlex, hfields⟩ := hall
    rw [Option.elim_some, htext]
    refine ⟨lex, hrun, hfields, ?_, ?_⟩
    · rw [hn]
      exact hlex.sign
    · rw [hn]
      exact hlex.value

end Runs

section Conditions

variable (h : AtLookup cfg s.lex) {text : List UInt8}
  (hin : ∀ p, p ≠ [] → p <+: text → ∃ calls t,
    (scanner (δ := δ) cfg).run s p = (calls, .ok t) ∧ InNumber t.lex)

include hin

omit hbits in
lemma not_rejects {code : ErrorCode} (hp : p ≠ []) (htext : p <+: text) :
    ¬Rejects cfg s p ([] : List (LexerCall δ)) code := by
  intro hrejects
  obtain ⟨calls, t, hrun, -⟩ := hin p hp htext
  cases hrejects.symm.trans hrun

include h

lemma fitsInt_of_read (hint : IsInt ds) (htext : minusText minus ++ ds <+: text) : FitsInt cfg ds := by
  by_contra hfits
  have hbehind {p q : List UInt8} (hp : ds = p ++ q) : minusText minus ++ p <+: text := by
    refine List.IsPrefix.trans ⟨q, ?_⟩ htext
    rw [hp, List.append_assoc]
  by_cases hbignum : cfg.bignum = true
  · obtain ⟨p, q, first, v, hp, -, lex, hrun, hlex⟩ := moves_oversized (δ := δ) hbits hbignum h
      ⟨integerMantissa minus hint, none⟩ hfits
    have hne : minusText minus ++ p ≠ [] := by
      intro hnil
      simp only [integerMantissa, hnil, Transducer.run_nil] at hrun
      cases hrun
    obtain ⟨calls, t, hrun', hnumber⟩ := hin _ hne (hbehind hp)
    cases hrun.symm.trans hrun'
    simp [InNumber, hlex.state] at hnumber
  · obtain ⟨p, b, q, rfl, hp, hfit, hnot⟩ := exists_longest_fit hbits hint.digits hint.ne_nil hfits
    have hprefix : minusText minus ++ p ++ [b] <+: text := by
      rw [List.append_assoc]
      exact hbehind (q := q) (by simp)
    exact not_rejects hin (by simp) hprefix
      ((moves_integer hbits h (hint.of_append hp) hfit minus).rejects fun lex hlex =>
        rejects_switch hbits hbignum hlex hint hp hnot [])

lemma fits_mantissa (m : Mantissa) (htext : m.text <+: text) : FitsInt cfg m.int :=
  fitsInt_of_read hbits h hin m.isInt (List.IsPrefix.trans (List.prefix_append _ _) htext)

lemma frac_of_read (m : Mantissa) (hb : b = 'e'.toUInt8 ∨ b = 'E'.toUInt8)
    (htext : m.text ++ [b] <+: text) : ∀ fs ∈ m.frac, fs.length % 2 ^ 16 ≠ 0 := by
  by_contra hfrac
  have hdigit : ¬isDigit b = true := by rcases hb with rfl | rfl <;> decide
  have hfits := fits_mantissa hbits h hin m (List.IsPrefix.trans (List.prefix_append _ _) htext)
  exact not_rejects hin (by simp) htext
    ((moves_mantissa hbits h m hfits).rejects fun lex hlex => rejects_frac hlex hfrac hdigit [])

lemma bounded_of_read (m : Mantissa) (e : Exponent) (htext : m.text ++ e.text <+: text) :
    FitsInt cfg m.int ∧ (∀ fs ∈ m.frac, fs.length % 2 ^ 16 ≠ 0) ∧
      decimal e.digits ≤ expLimit e.negative := by
  have hfits := fits_mantissa hbits h hin m (List.IsPrefix.trans (List.prefix_append _ _) htext)
  have heq : m.text ++ e.text = m.text ++ [e.letter] ++ (e.sign.toList ++ e.digits) := by
    simp [Exponent.text]
  rw [heq] at htext
  have hfrac := frac_of_read hbits h hin m e.isLetter
    (List.IsPrefix.trans (List.prefix_append _ _) htext)
  refine ⟨hfits, hfrac, ?_⟩
  by_contra hlimit
  have hletter := (moves_mantissa (δ := δ) hbits h m hfits).append fun lex hlex =>
    moves_letter (s := ⟨lex, _⟩) hbits hlex hfrac e.isLetter
  exact not_rejects hin (by simp) htext (hletter.rejects fun lex hlex =>
    rejects_exponent hbits hlex e hlimit)

end Conditions

section Restarts

omit hbits in
lemma scanStep_restart (h : react cfg (recordMagic s.lex b) s.index b = .unread calls lex) :
    (scanStep (δ := δ) cfg s b).2 = (scanStep (δ := δ) cfg ⟨lex, s.index⟩ b).2 := by
  have hs : (recordMagic lex b).state = .lookupToken := by rw [recordMagic_state, react_unread_state h]
  rw [scanStep, scanStep, h]
  dsimp only
  cases hreact : (react cfg (recordMagic lex b) s.index b : Reaction δ) with
  | consume calls' lex' | reject code => rfl
  | unread calls' lex' => exact absurd hreact (react_ne_unread hs _ _ _ _)

lemma Consumes.restart {start text : List UInt8} (h : Consumes δ cfg .zero start text) :
    ∃ s : Scan, AtLookup cfg s.lex ∧ ∀ p, p ≠ [] → p <+: text → ∃ calls calls' t,
      (scanner (δ := δ) cfg).run ⟨.zero, 0⟩ (start ++ p) = (calls, .ok t) ∧
        (scanner (δ := δ) cfg).run s p = (calls', .ok t) ∧ InNumber t.lex := by
  obtain ⟨before, s, hs, hbegin⟩ := h.begins
  have htidy : Tidy cfg s.lex := scanner_run_tidy hbits (tidy_zero cfg) hs
  have hrest (p : List UInt8) (hp : p ≠ []) (hstart : p <+: text) : ∃ calls calls' t,
      (scanner (δ := δ) cfg).run ⟨.zero, 0⟩ (start ++ p) = (calls, .ok t) ∧
        (scanner (δ := δ) cfg).run s p = (calls', .ok t) ∧ InNumber t.lex := by
    obtain ⟨calls, t, hrun, hin⟩ := h.inside p hp hstart
    have hboth := hrun
    rw [Transducer.run_append_ok _ hs, Prod.mk.injEq] at hboth
    exact ⟨calls, _, t, hrun, Prod.ext rfl hboth.2, hin⟩
  rcases hbegin with hlookup | ⟨b, hb, hunread⟩
  · exact ⟨s, ⟨htidy, hlookup⟩, hrest⟩
  · obtain ⟨rest, rfl⟩ := List.head?_eq_some_iff.mp hb
    cases hreact : (react cfg (recordMagic s.lex b) s.index b : Reaction δ) with
    | consume calls lex | reject code =>
      rw [hreact] at hunread
      cases hunread
    | unread calls lex =>
      refine ⟨⟨lex, s.index⟩, ⟨tidy_of_unread hbits (tidy_recordMagic htidy b) hreact,
        react_unread_state hreact⟩, fun p hp hstart => ?_⟩
      obtain ⟨calls', calls'', t, hrun, hrun', hin⟩ := hrest p hp hstart
      obtain ⟨c, p, rfl⟩ := List.exists_cons_of_ne_nil hp
      obtain ⟨rfl, -⟩ := List.cons_prefix_cons.mp hstart
      have hsame : ((scanner (δ := δ) cfg).step s c).2 =
          ((scanner (δ := δ) cfg).step ⟨lex, s.index⟩ c).2 := scanStep_restart hreact
      have hend := (Transducer.run_cons_congr _ hsame p).symm.trans (congrArg Prod.snd hrun')
      exact ⟨calls', _, t, hrun, Prod.ext rfl hend, hin⟩

lemma Moves.of_meets {start text rest : List UInt8} {P : Lexer → Prop} {lexer : Lexer}
    (hread : Consumes δ cfg .zero start text) (hne : text ≠ [])
    (hmoves : ∀ s : Scan, AtLookup cfg s.lex → (∀ p, p ≠ [] → p <+: text → ∃ calls t,
      (scanner (δ := δ) cfg).run s p = (calls, .ok t) ∧ InNumber t.lex) →
        Moves cfg s text ([] : List (LexerCall δ)) P)
    (hmeets : Meets δ cfg (start ++ text ++ rest) lexer rest) : P lexer := by
  obtain ⟨s, hs, hin⟩ := hread.restart hbits
  obtain ⟨calls, calls', t, hrun, hrun', -⟩ := hin text hne List.prefix_rfl
  obtain ⟨lex, hend, hlex⟩ := hmoves s hs fun p hp hstart => by
    obtain ⟨-, calls, t, -, hrun, hnumber⟩ := hin p hp hstart
    exact ⟨calls, t, hrun, hnumber⟩
  cases hend.symm.trans hrun'
  obtain ⟨before, l, index, hbefore, hrun''⟩ := meets_iff.mp hmeets
  obtain rfl := List.append_cancel_right hbefore
  cases hrun''.symm.trans hrun
  exact hlex

lemma holds_of_consumes (n : Numeral) {start rest : List UInt8}
    (hread : Consumes δ cfg .zero start n.text) {lexer : Lexer}
    (hmeets : Meets δ cfg (start ++ n.text ++ rest) lexer rest) : Holds n lexer := by
  have hne : n.text ≠ [] := by
    have hint := n.isInt.ne_nil
    simp [Numeral.text, Mantissa.text, hint]
  refine Moves.of_meets hbits hread hne (fun s hs hin => ?_) hmeets
  have hfits := fits_mantissa hbits hs hin n.toMantissa (List.prefix_append _ _)
  have hbounded {e : Exponent} (he : n.exp = some e) :=
    bounded_of_read hbits hs hin n.toMantissa e (by rw [Numeral.text, he, Option.elim_some])
  refine moves_number hbits hs n hfits (fun hexp => ?_) fun e he => (hbounded he).2.2
  obtain ⟨e, he⟩ := Option.ne_none_iff_exists'.mp hexp
  exact (hbounded he).2.1

end Restarts

omit hbits [DoubleArith δ] in
lemma Holds.exactValue {n : Numeral} (h : Holds n lex) (hfrac : n.frac = some fs)
    (hvalue : (lex.fracValue : ℤ) = decimal fs) (hpower : lex.fracPower = fs.length) :
    lex.exactValue = n.value := by
  have hq : (lex.fracValue : ℚ) = decimal fs := by exact_mod_cast hvalue
  have hexp : (lex.expValue : ℤ) = decimal (n.exp.elim [] Exponent.digits) := h.exp
  rw [Lexer.exactValue, Numeral.value, h.fields.sign, h.fields.int, h.expSign, hexp, hpower, hq, hfrac,
    Option.getD_some, zpow_neg, zpow_natCast, div_eq_mul_inv]

/-- Before `rest`, where `embedjson_tokenf` is called, the digits of a fraction are held exactly if and
only if they fit the 64 bits of `frac_value` and the 16 bits of `frac_power`. -/
theorem fraction_exact_iff (n : Numeral) (hfrac : n.frac = some fs) {start rest : List UInt8}
    (hread : Consumes δ cfg .zero start n.text) {lexer : Lexer}
    (hmeets : Meets δ cfg (start ++ n.text ++ rest) lexer rest) :
    ((lexer.fracValue : ℤ) = decimal fs ∧ lexer.fracPower = fs.length ∧
        lexer.exactValue = n.value) ↔
      decimal fs < 2 ^ 64 ∧ fs.length < 2 ^ 16 := by
  have h := holds_of_consumes hbits n hread hmeets
  obtain ⟨-, -, hvalue, hpower⟩ := h.fields
  rw [hfrac, Option.getD_some] at hvalue hpower
  have hnonneg := decimal_nonneg (n.isFrac fs hfrac).1
  constructor
  · rintro ⟨hexact, hlength, -⟩
    omega
  · rintro ⟨hfits, hshort⟩
    have hexact : (lexer.fracValue : ℤ) = decimal fs := by omega
    have hlength : lexer.fracPower = fs.length := by omega
    exact ⟨hexact, hlength, h.exactValue hfrac hexact hlength⟩

end Widths

section Literals

instance : Decidable (InNumber lex) :=
  inferInstanceAs (Decidable (lex.state = .inNumberSign ∨ lex.state = .inNumber ∨
    lex.state = .inNumberFrac ∨ lex.state = .inNumberExpSign ∨ lex.state = .inNumberExp))

def readsNumber (text : List UInt8) : Bool :=
  text.inits.all fun p => p.isEmpty ||
    ((scanner (δ := ℚ) .default).run ⟨.zero, 0⟩ p).2.toOption.any fun s => InNumber s.lex

lemma consumes_of_readsNumber {text : List UInt8} (h : readsNumber text = true) :
    Consumes ℚ .default .zero [] text := by
  refine ⟨⟨[], ⟨.zero, 0⟩, rfl, .inl rfl⟩, fun p hp hstart => ?_⟩
  have hinside := List.all_eq_true.mp h p ((List.mem_inits p text).mpr hstart)
  rcases hrun : (scanner (δ := ℚ) .default).run ⟨.zero, 0⟩ p with ⟨calls, code | t⟩
  · simp [hrun, hp, Except.toOption] at hinside
  · refine ⟨calls, t, hrun, ?_⟩
    simpa [hrun, hp, Except.toOption] using hinside

def zeroPoint (fs : List UInt8) (hfs : Digits fs ∧ fs ≠ []) : Numeral where
  toMantissa := fractionMantissa false (isInt_singleton (b := '0'.toUInt8) rfl) hfs
  exp := none

def wrappingDigits : List UInt8 := "18446744073709551616".toList.map Char.toUInt8

lemma digits_wrappingDigits : Digits wrappingDigits ∧ wrappingDigits ≠ [] :=
  ⟨List.all_eq_true.mp (by decide), by decide⟩

/-- Behind `0.18446744073709551616` the lexer holds a zero and hands it over. -/
theorem fraction_wraps :
    ∃ (n : Numeral) (lexer : Lexer), n.frac = some wrappingDigits ∧
      Consumes ℚ .default .zero [] n.text ∧
      Meets ℚ .default (n.text ++ [' '.toUInt8]) lexer [' '.toUInt8] ∧
      trace (δ := ℚ) .default .zero 0 [n.text ++ [' '.toUInt8]] = [.tokenf 0 (.buffer 21)] ∧
      ¬((lexer.fracValue : ℤ) = decimal wrappingDigits ∧
        lexer.fracPower = wrappingDigits.length ∧ lexer.exactValue = n.value) := by
  refine ⟨zeroPoint wrappingDigits digits_wrappingDigits, _, rfl,
    consumes_of_readsNumber (by decide +kernel),
    ⟨[(zeroPoint wrappingDigits digits_wrappingDigits).text], [], rfl, rfl⟩, by decide +kernel, ?_⟩
  rintro ⟨hvalue, -⟩
  revert hvalue
  decide

def greatestDigits : List UInt8 := "18446744073709551615".toList.map Char.toUInt8

lemma digits_greatestDigits : Digits greatestDigits ∧ greatestDigits ≠ [] :=
  ⟨List.all_eq_true.mp (by decide), by decide⟩

theorem fraction_exact_iff_greatest :
    ∃ lexer, Meets ℚ .default ((zeroPoint _ digits_greatestDigits).text ++ [' '.toUInt8]) lexer
        [' '.toUInt8] ∧
      (lexer.fracValue : ℤ) = 18446744073709551615 ∧ lexer.fracPower = 20 ∧
      lexer.exactValue = (zeroPoint _ digits_greatestDigits).value := by
  have hmeets : Meets ℚ .default ([] ++ (zeroPoint _ digits_greatestDigits).text ++ [' '.toUInt8]) _
      [' '.toUInt8] := ⟨[(zeroPoint _ digits_greatestDigits).text], [], rfl, rfl⟩
  have hbits : 8 ≤ Config.default.intBits := by decide
  obtain ⟨hvalue, hpower, hexact⟩ := (fraction_exact_iff hbits (zeroPoint _ digits_greatestDigits) rfl
    (consumes_of_readsNumber (by decide +kernel)) hmeets).mpr (by decide)
  exact ⟨_, hmeets, hvalue, hpower, hexact⟩

end Literals

end Embedjson
