import Embedjson.Lexer.NumberSteps
import Embedjson.Lexer.Regions

namespace Embedjson

open Foundations Foundations.Program

variable {δ : Type} [DoubleArith δ] {cfg : Config} {lex : Lexer} {text : List UInt8} {b : UInt8}
  {index : ℤ}

def InNumber (lex : Lexer) : Prop :=
  lex.state = .inNumberSign ∨ lex.state = .inNumber ∨ lex.state = .inNumberFrac ∨
    lex.state = .inNumberExpSign ∨ lex.state = .inNumberExp

/-- What has been read of a number, by the state of the lexer. -/
inductive ReadOfNumber (cfg : Config) : List UInt8 → Lexer → Prop
  | sign {lex : Lexer} (h : AtSign cfg lex) : ReadOfNumber cfg ['-'.toUInt8] lex
  | int {minus : Bool} {ds : List UInt8} {lex : Lexer} (hint : IsInt ds)
      (h : AtInt cfg minus ds lex) : ReadOfNumber cfg (minusText minus ++ ds) lex
  | frac {minus : Bool} {ds fs : List UInt8} {lex : Lexer} (hint : IsInt ds) (hfs : Digits fs)
      (h : AtFrac cfg fs lex) : ReadOfNumber cfg (minusText minus ++ ds ++ '.'.toUInt8 :: fs) lex
  | expSign (m : Mantissa) {letter : UInt8} {lex : Lexer}
      (hletter : letter = 'e'.toUInt8 ∨ letter = 'E'.toUInt8) (h : AtExpSign cfg lex) :
      ReadOfNumber cfg (m.text ++ [letter]) lex
  | exp (m : Mantissa) {letter : UInt8} {sign : Option UInt8} {negative : Bool} {es : List UInt8}
      {lex : Lexer} (hletter : letter = 'e'.toUInt8 ∨ letter = 'E'.toUInt8)
      (hsign : ∀ b ∈ sign, b = '+'.toUInt8 ∨ b = '-'.toUInt8) (hes : Digits es)
      (hne : sign = none → es ≠ []) (h : AtExp cfg negative es lex) :
      ReadOfNumber cfg (m.text ++ letter :: sign.toList ++ es) lex

def TokenOf (n : Numeral) (last : Pointer) : LexerCall δ → Prop
  | .tokeni v position =>
    n.frac = none ∧ n.exp = none ∧ v = signed n.minus (decimal n.int) ∧ position = last
  | .tokenf _ position => ¬(n.frac = none ∧ n.exp = none) ∧ position = last
  | _ => False

/-- The lexer reads `text` behind `start` as one number: it comes to the first byte in
`LEXER_STATE_LOOKUP_TOKEN`, perhaps by looking at it again, and stays in the states of a number. -/
structure Consumes (δ : Type) [DoubleArith δ] (cfg : Config) (lexer : Lexer)
    (start text : List UInt8) : Prop where
  begins : ∃ calls s, (scanner (δ := δ) cfg).run ⟨lexer, 0⟩ start = (calls, .ok s) ∧
    (s.lex.state = .lookupToken ∨ ∃ b ∈ text.head?,
      (react cfg (recordMagic s.lex b) s.index b : Reaction δ).isUnread = true)
  inside : ∀ p, p ≠ [] → p <+: text → ∃ calls s,
    (scanner (δ := δ) cfg).run ⟨lexer, 0⟩ (start ++ p) = (calls, .ok s) ∧ InNumber s.lex

section Mantissas

def integerMantissa (minus : Bool) {ds : List UInt8} (hint : IsInt ds) : Mantissa where
  minus := minus
  int := ds
  frac := none
  isInt := hint
  isFrac := isFrac_none

def fractionMantissa (minus : Bool) {ds fs : List UInt8} (hint : IsInt ds)
    (hfs : Digits fs ∧ fs ≠ []) : Mantissa where
  minus := minus
  int := ds
  frac := some fs
  isInt := hint
  isFrac := by
    rintro _ ⟨⟩
    exact hfs

lemma integerMantissa_text (minus : Bool) {ds : List UInt8} (hint : IsInt ds) :
    (integerMantissa minus hint).text = minusText minus ++ ds := List.append_nil _

lemma ne_nil_of_length_mod {fs : List UInt8} (h : fs.length % 2 ^ 16 ≠ 0) : fs ≠ [] := by
  rintro rfl
  exact h rfl

end Mantissas

section Widths

variable (hbits : 8 ≤ cfg.intBits)

include hbits

section Steps

omit hbits [DoubleArith δ] in
lemma ReadOfNumber.recordMagic (h : ReadOfNumber cfg text lex) (b : UInt8) :
    ReadOfNumber cfg text (recordMagic lex b) := by
  cases h with
  | sign h => exact .sign (h.recordMagic b)
  | int hint h => exact .int hint (h.recordMagic b)
  | frac hint hfs h => exact .frac hint hfs (h.recordMagic b)
  | expSign m hletter h => exact .expSign m hletter (h.recordMagic b)
  | exp m hletter hsign hes hne h => exact .exp m hletter hsign hes hne (h.recordMagic b)

omit hbits in
lemma AtLookup.not_inNumber (h : AtLookup cfg lex) : ¬InNumber lex := by simp [InNumber, h.state]

lemma lookup_reading (h : AtLookup cfg lex) (index : ℤ) (b : UInt8) :
    (react cfg lex index b : Reaction δ).Keeps fun lex' => InNumber lex' → ReadOfNumber cfg [b] lex' := by
  by_cases hminus : b = '-'.toUInt8
  · obtain ⟨lex', hreact, hlex⟩ := h.pushMinus (δ := δ) hbits index
    rw [hminus, hreact]
    exact fun _ => .sign hlex
  by_cases hb : isDigit b = true
  · obtain ⟨lex', hreact, hlex⟩ := h.firstDigit (δ := δ) hbits hb index
    rw [hreact]
    exact fun _ => .int (isInt_singleton hb) hlex
  · have hno {lex' : Lexer} (hs : lex'.state = .lookupToken ∨ lex'.state = .inString ∨
        lex'.state = .inTrue ∨ lex'.state = .inFalse ∨ lex'.state = .inNull) :
        InNumber lex' → ReadOfNumber cfg [b] lex' := by
      intro hin
      rcases hs with hs | hs | hs | hs | hs <;> simp [InNumber, hs] at hin
    rw [h.react_eq]
    refine .ite (fun _ => hno (.inl h.state)) fun _ => ?_
    iterate 6 refine .ite (fun _ => hno (.inl h.state)) fun _ => ?_
    refine .ite (fun _ => hno (.inr (.inl rfl))) fun _ => ?_
    refine .ite (fun _ => hno (.inr (.inr (.inl rfl)))) fun _ => ?_
    refine .ite (fun _ => hno (.inr (.inr (.inr (.inl rfl))))) fun _ => ?_
    refine .ite (fun _ => hno (.inr (.inr (.inr (.inr rfl))))) fun _ => ?_
    exact .ite (fun hb => absurd hb hminus) fun _ => .ite (fun _ => trivial) fun _ =>
      .ite (fun hdigit => absurd hdigit hb) fun _ => trivial

def ContinuesNumber (cfg : Config) (text : List UInt8) (b : UInt8) (index : ℤ) : Reaction δ → Prop
  | .consume calls lex => (∀ f ∈ calls, f.NoNumber) ∧ (InNumber lex → ReadOfNumber cfg (text ++ [b]) lex)
  | .unread calls _ => ∃ (n : Numeral) (f : LexerCall δ), text = n.text ∧ calls = [f] ∧
      TokenOf n (.buffer (index - 1)) f
  | .reject _ => True

omit hbits [DoubleArith δ] in
lemma continues_silent {lex' : Lexer} (h : ReadOfNumber cfg (text ++ [b]) lex') :
    ContinuesNumber cfg text b index (.consume [] lex' : Reaction δ) :=
  ⟨List.forall_mem_nil _, fun _ => h⟩

lemma AtSign.continues (h : AtSign cfg lex) (b : UInt8) (index : ℤ) :
    ContinuesNumber cfg ['-'.toUInt8] b index (react cfg lex index b : Reaction δ) := by
  by_cases hb : isDigit b = true
  · obtain ⟨lex', hreact, hlex⟩ := h.pushDigit (δ := δ) hbits hb index
    rw [hreact]
    have hread : ReadOfNumber cfg (minusText true ++ [b]) lex' := .int (isInt_singleton hb) hlex
    exact continues_silent hread
  · rw [h.other hb]
    trivial

lemma AtInt.continues {minus : Bool} {ds : List UInt8} (hint : IsInt ds) (h : AtInt cfg minus ds lex)
    (b : UInt8) (index : ℤ) :
    ContinuesNumber cfg (minusText minus ++ ds) b index (react cfg lex index b : Reaction δ) := by
  by_cases hb : isDigit b = true
  · by_cases hzero : decimal ds = 0
    · rw [h.zero hb hzero]
      trivial
    by_cases hguard : decimal ds ≤ cfg.intMax / 10 - digit b
    · obtain ⟨lex', hreact, hlex⟩ := h.pushDigit (δ := δ) hbits hb hzero hguard index
      rw [hreact]
      apply continues_silent
      rw [List.append_assoc]
      exact .int (hint.concat hzero hb) hlex
    by_cases hbignum : cfg.bignum = true
    · obtain ⟨lex', hreact, hlex⟩ := h.big (δ := δ) hbits hb hzero (not_le.mp hguard) hbignum index
      rw [hreact]
      refine ⟨List.forall_mem_singleton.mpr trivial, fun hin => ?_⟩
      simp [InNumber, hlex.state] at hin
    · rw [h.overflow hbits hb hzero (not_le.mp hguard) hbignum]
      trivial
  by_cases hpoint : b = '.'.toUInt8
  · obtain ⟨lex', hreact, hlex⟩ := h.point (δ := δ) hbits index
    rw [hpoint, hreact]
    exact continues_silent (.frac hint (List.forall_mem_nil _) hlex)
  by_cases hletter : b = 'e'.toUInt8 ∨ b = 'E'.toUInt8
  · obtain ⟨lex', hreact, hlex⟩ := h.letter (δ := δ) hbits hletter index
    rw [hreact, ← integerMantissa_text minus hint]
    exact continues_silent (.expSign _ hletter hlex)
  · obtain ⟨lex', hreact, -⟩ := h.end (δ := δ) hbits hb hpoint hletter index
    rw [hreact]
    refine ⟨⟨integerMantissa minus hint, none⟩, _, ?_, rfl, rfl, rfl, rfl, rfl⟩
    rw [Numeral.text, integerMantissa_text]
    exact (List.append_nil _).symm

lemma AtFrac.continues {ds fs : List UInt8} (minus : Bool) (hint : IsInt ds) (hfs : Digits fs)
    (h : AtFrac cfg fs lex) (b : UInt8) (index : ℤ) :
    ContinuesNumber cfg (minusText minus ++ ds ++ '.'.toUInt8 :: fs) b index
      (react cfg lex index b : Reaction δ) := by
  by_cases hb : isDigit b = true
  · obtain ⟨lex', hreact, hlex⟩ := h.pushDigit (δ := δ) hbits hb index
    rw [hreact]
    apply continues_silent
    rw [List.append_assoc _ _ [b], List.cons_append]
    exact .frac hint (digits_append.mpr ⟨hfs, digits_singleton.mpr hb⟩) hlex
  by_cases hempty : fs.length % 2 ^ 16 = 0
  · rw [h.empty hb hempty]
    trivial
  have hmantissa : minusText minus ++ ds ++ '.'.toUInt8 :: fs =
    (fractionMantissa minus hint ⟨hfs, ne_nil_of_length_mod hempty⟩).text := rfl
  by_cases hletter : b = 'e'.toUInt8 ∨ b = 'E'.toUInt8
  · obtain ⟨lex', hreact, hlex⟩ := h.letter (δ := δ) hbits hletter hempty index
    rw [hreact, hmantissa]
    exact continues_silent (.expSign _ hletter hlex)
  · obtain ⟨x, lex', hreact, -⟩ := h.end (δ := δ) hbits hb hletter hempty index
    rw [hreact, hmantissa]
    exact ⟨⟨_, none⟩, _, (List.append_nil _).symm, rfl, nofun, rfl⟩

lemma AtExpSign.continues (m : Mantissa) {letter : UInt8}
    (hletter : letter = 'e'.toUInt8 ∨ letter = 'E'.toUInt8) (h : AtExpSign cfg lex) (b : UInt8)
    (index : ℤ) :
    ContinuesNumber cfg (m.text ++ [letter]) b index (react cfg lex index b : Reaction δ) := by
  have hsigned {lex' : Lexer} {negative : Bool} (hb : b = '+'.toUInt8 ∨ b = '-'.toUInt8)
      (hlex : AtExp cfg negative [] lex') : ReadOfNumber cfg (m.text ++ [letter] ++ [b]) lex' := by
    have hsign : ∀ c ∈ some b, c = '+'.toUInt8 ∨ c = '-'.toUInt8 := by
      rintro _ ⟨⟩
      exact hb
    have hread := ReadOfNumber.exp m hletter hsign (List.forall_mem_nil _) nofun hlex
    simpa using hread
  by_cases hminus : b = '-'.toUInt8
  · obtain ⟨lex', hreact, hlex⟩ := h.pushMinus (δ := δ) hbits index
    rw [← hminus] at hreact
    rw [hreact]
    exact continues_silent (hsigned (.inr hminus) hlex)
  by_cases hplus : b = '+'.toUInt8
  · obtain ⟨lex', hreact, hlex⟩ := h.pushPlus (δ := δ) hbits index
    rw [← hplus] at hreact
    rw [hreact]
    exact continues_silent (hsigned (.inl hplus) hlex)
  by_cases hb : isDigit b = true
  · obtain ⟨lex', hreact, hlex⟩ := h.firstDigit (δ := δ) hbits hb index
    rw [hreact]
    have hread : ReadOfNumber cfg (m.text ++ letter :: (none : Option UInt8).toList ++ [b]) lex' :=
      .exp m hletter isSign_none (digits_singleton.mpr hb) (fun _ => List.cons_ne_nil _ _) hlex
    exact continues_silent hread
  · rw [h.other hminus hb hplus]
    trivial

lemma AtExp.continues (m : Mantissa) {letter : UInt8} {sign : Option UInt8} {negative : Bool}
    {es : List UInt8} (hletter : letter = 'e'.toUInt8 ∨ letter = 'E'.toUInt8)
    (hsign : ∀ b ∈ sign, b = '+'.toUInt8 ∨ b = '-'.toUInt8) (hes : Digits es)
    (h : AtExp cfg negative es lex) (b : UInt8) (index : ℤ) :
    ContinuesNumber cfg (m.text ++ letter :: sign.toList ++ es) b index
      (react cfg lex index b : Reaction δ) := by
  by_cases hb : isDigit b = true
  · have hesb : Digits (es ++ [b]) := digits_append.mpr ⟨hes, digits_singleton.mpr hb⟩
    by_cases hlimit : decimal (es ++ [b]) ≤ expLimit negative
    · obtain ⟨lex', hreact, hlex⟩ := h.pushDigit (δ := δ) hbits hb hlimit index
      rw [hreact]
      apply continues_silent
      rw [List.append_assoc _ es]
      exact .exp m hletter hsign hesb (fun _ => by simp) hlex
    · rw [h.overflow hb (not_le.mp hlimit)]
      trivial
  by_cases hempty : es = []
  · subst hempty
    rw [h.empty hb]
    trivial
  · obtain ⟨x, lex', hreact, -⟩ := h.end (δ := δ) hbits hb hempty index
    rw [hreact]
    refine ⟨⟨m, some ⟨letter, sign, es, hletter, hsign, hes, hempty⟩⟩, _, ?_, rfl, nofun, rfl⟩
    exact List.append_assoc _ _ _

lemma ReadOfNumber.continues (h : ReadOfNumber cfg text lex) (b : UInt8) (index : ℤ) :
    ContinuesNumber cfg text b index (react cfg lex index b : Reaction δ) := by
  cases h with
  | sign h => exact h.continues hbits b index
  | int hint h => exact h.continues hbits hint b index
  | frac hint hfs h => exact h.continues hbits _ hint hfs b index
  | expSign m hletter h => exact h.continues hbits m hletter b index
  | exp m hletter hsign hes _ h => exact h.continues hbits m hletter hsign hes b index

omit hbits [DoubleArith δ] in
lemma not_inNumber_of_inside (h : lex.inside = true) : ¬InNumber lex := by
  rintro (hs | hs | hs | hs | hs) <;> simp [Lexer.inside, hs] at h

omit hbits in
lemma react_not_inNumber (hlookup : lex.state ≠ .lookupToken) (h : ¬InNumber lex) (index : ℤ)
    (b : UInt8) : (react cfg lex index b : Reaction δ).Keeps fun lex' => ¬InNumber lex' := by
  have hlook {lex' : Lexer} (hs : lex'.state = .lookupToken) : ¬InNumber lex' := by
    simp [InNumber, hs]
  cases hin : lex.inside with
  | true =>
    have hstays := react_staysInside (δ := δ) cfg hin index b
    cases hreact : (react cfg lex index b : Reaction δ) with
    | consume calls lex' =>
      rw [hreact] at hstays
      rcases hstays with ⟨-, hlex⟩ | ⟨-, -, hs⟩
      · exact not_inNumber_of_inside hlex
      · exact hlook hs
    | unread calls lex' => exact hlook (react_unread_state hreact)
    | reject code => trivial
  | false =>
    rw [react]
    cases hs : lex.state with
    | lookupToken => exact absurd hs hlookup
    | inString | inStringEscape | inStringUnicodeEscape => simp [Lexer.inside, hs] at hin
    | inNumberSign | inNumber | inNumberFrac | inNumberExpSign | inNumberExp =>
      simp [InNumber, hs] at h
    | inBigNumber => exact .ite (fun _ => h) fun _ => hlook rfl
    | inTrue | inFalse | inNull =>
      exact .ite (fun _ => trivial) fun _ => .ite (fun _ => hlook rfl) fun _ => h

end Steps

section Scans

variable {s t : Scan} {calls : List (LexerCall δ)}

lemma scanStep_reading (htidy : Tidy cfg s.lex) (hstep : scanStep cfg s b = (calls, .ok t))
    (hin : InNumber t.lex) :
    (ReadOfNumber cfg [b] t.lex ∧ (s.lex.state = .lookupToken ∨
      (react cfg (recordMagic s.lex b) s.index b : Reaction δ).isUnread = true)) ∨
    InNumber s.lex ∧ ∀ text, ReadOfNumber cfg text s.lex → ReadOfNumber cfg (text ++ [b]) t.lex := by
  have hmagic := tidy_recordMagic htidy b
  rw [scanStep] at hstep
  cases hreact : (react cfg (recordMagic s.lex b) s.index b : Reaction δ) with
  | consume calls' lex =>
    rw [hreact] at hstep
    cases hstep
    by_cases hlookup : s.lex.state = .lookupToken
    · have hread := lookup_reading (δ := δ) hbits ⟨hmagic, by simpa using hlookup⟩ s.index b
      rw [hreact] at hread
      exact .inl ⟨hread hin, .inl hlookup⟩
    by_cases hnumber : InNumber s.lex
    · refine .inr ⟨hnumber, fun text htext => ?_⟩
      have hcontinues := (htext.recordMagic b).continues (δ := δ) hbits b s.index
      rw [hreact] at hcontinues
      exact hcontinues.2 hin
    · have hout : (react cfg (recordMagic s.lex b) s.index b : Reaction δ).Keeps
          fun lex' => ¬InNumber lex' :=
        react_not_inNumber (by simpa using hlookup) (by simpa [InNumber] using hnumber) s.index b
      rw [hreact] at hout
      exact absurd hin hout
  | reject code => simp [hreact] at hstep
  | unread calls' lex =>
    have hlex : AtLookup cfg lex := ⟨tidy_of_unread hbits hmagic hreact, react_unread_state hreact⟩
    have hread := lookup_reading (δ := δ) hbits (hlex.recordMagic b) s.index b
    simp only [hreact] at hstep
    cases hreact' : (react cfg (recordMagic lex b) s.index b : Reaction δ) with
    | consume calls'' lex' =>
      rw [hreact'] at hread hstep
      cases hstep
      exact .inl ⟨hread hin, .inr rfl⟩
    | reject code => simp [hreact'] at hstep
    | unread calls'' lex' => simp [hreact'] at hstep

omit hbits in
lemma scanStep_unread_calls {lex : Lexer}
    (h : react cfg (recordMagic s.lex b) s.index b = .unread calls lex) :
    ∃ more, (scanStep cfg s b).1 = calls ++ more ∧ ∀ f ∈ more, f.NoNumber := by
  have hs := react_unread_state h
  have hplain : (react cfg (recordMagic lex b) s.index b : Reaction δ).Makes LexerCall.NoNumber :=
    react_plain cfg (by simp [hs]) (by simp [hs]) (by simp [hs]) s.index b
  rw [scanStep]
  simp only [h]
  cases hreact : (react cfg (recordMagic lex b) s.index b : Reaction δ) with
  | consume calls' lex' | unread calls' lex' =>
    rw [hreact] at hplain
    exact ⟨calls', rfl, hplain⟩
  | reject code => exact ⟨[], (List.append_nil _).symm, List.forall_mem_nil _⟩

lemma scanStep_token {before after : List (LexerCall δ)} {f : LexerCall δ}
    (hcalls : (scanStep cfg s b).1 = before ++ f :: after) (hf : ¬f.NoNumber) :
    InNumber s.lex ∧ ∀ text, ReadOfNumber cfg text s.lex →
      ∃ n : Numeral, text = n.text ∧ before = [] ∧ TokenOf n (.buffer (s.index - 1)) f := by
  have hmem : f ∈ (scanStep cfg s b).1 := by simp [hcalls]
  have hnumber : InNumber s.lex := by
    by_contra hnumber
    refine hf ?_
    simp only [InNumber, not_or] at hnumber
    obtain ⟨-, hint, hfrac, -, hexp⟩ := hnumber
    have hplain : (react cfg (recordMagic s.lex b) s.index b : Reaction δ).Makes LexerCall.NoNumber :=
      react_plain cfg (by simpa using hint) (by simpa using hfrac) (by simpa using hexp) s.index b
    cases hreact : (react cfg (recordMagic s.lex b) s.index b : Reaction δ) with
    | consume calls lex =>
      rw [hreact] at hplain
      rw [scanStep_consume hreact] at hmem
      exact hplain f hmem
    | reject code =>
      rw [scanStep_reject hreact] at hmem
      cases hmem
    | unread calls lex =>
      rw [hreact] at hplain
      obtain ⟨more, heq, hmore⟩ := scanStep_unread_calls hreact
      rw [heq] at hmem
      exact (List.mem_append.mp hmem).elim (hplain f) (hmore f)
  refine ⟨hnumber, fun text htext => ?_⟩
  have hcontinues := (htext.recordMagic b).continues (δ := δ) hbits b s.index
  cases hreact : (react cfg (recordMagic s.lex b) s.index b : Reaction δ) with
  | consume calls lex =>
    rw [hreact] at hcontinues
    rw [scanStep_consume hreact] at hmem
    exact absurd (hcontinues.1 f hmem) hf
  | reject code =>
    rw [scanStep_reject hreact] at hmem
    cases hmem
  | unread calls lex =>
    rw [hreact] at hcontinues
    obtain ⟨n, g, rfl, rfl, hg⟩ := hcontinues
    obtain ⟨more, heq, hmore⟩ := scanStep_unread_calls hreact
    rw [hcalls] at heq
    rcases before with _ | ⟨g', before⟩
    · obtain ⟨rfl, -⟩ := List.cons.inj heq
      exact ⟨n, rfl, rfl, hg⟩
    · obtain ⟨-, rfl⟩ := List.cons.inj heq
      exact absurd (hmore f (by simp)) hf

end Scans

section Runs

variable {lexer : Lexer} {pre : List UInt8} {calls : List (LexerCall δ)} {t : Scan}

lemma run_reading (h : AtLookup cfg lexer)
    (hrun : (scanner cfg).run ⟨lexer, 0⟩ pre = (calls, .ok t)) (hin : InNumber t.lex) :
    ∃ start text, pre = start ++ text ∧ Consumes δ cfg lexer start text ∧
      ReadOfNumber cfg text t.lex := by
  induction pre using List.reverseRecOn generalizing calls t with
  | nil =>
    cases hrun
    exact absurd hin h.not_inNumber
  | append_singleton pre b ih =>
    rcases hpre : (scanner (δ := δ) cfg).run ⟨lexer, 0⟩ pre with ⟨calls', code | s⟩
    · rw [Transducer.run_append_error _ hpre] at hrun
      cases hrun
    have hboth := hrun
    rw [Transducer.run_append_ok _ hpre, Transducer.run_singleton, Prod.mk.injEq] at hboth
    have htidy : Tidy cfg s.lex := scanner_run_tidy hbits h.tidy hpre
    have hstep : scanStep cfg s b = (_, .ok t) := Prod.ext rfl hboth.2
    rcases scanStep_reading hbits htidy hstep hin with ⟨hread, hbegin⟩ | ⟨hnumber, hread⟩
    · refine ⟨pre, [b], rfl, ⟨⟨calls', s, hpre, hbegin.imp_right fun hb => ⟨b, rfl, hb⟩⟩, ?_⟩, hread⟩
      intro p hp hstart
      have hcases : p = [] ++ [b] ∨ p <+: [] := List.prefix_concat_iff.mp hstart
      rcases hcases with rfl | hstart
      · exact ⟨calls, t, hrun, hin⟩
      · exact absurd (List.prefix_nil.mp hstart) hp
    · obtain ⟨start, text, rfl, hbytes, htext⟩ := ih hpre hnumber
      refine ⟨start, text ++ [b], List.append_assoc _ _ _, ⟨?_, ?_⟩, hread text htext⟩
      · obtain ⟨calls'', u, hstart, hu⟩ := hbytes.begins
        refine ⟨calls'', u, hstart, hu.imp_right ?_⟩
        rintro ⟨c, hc, hunread⟩
        exact ⟨c, by rw [List.head?_append, Option.mem_def.mp hc]; rfl, hunread⟩
      · intro p hp hstart
        rcases List.prefix_concat_iff.mp hstart with rfl | hstart
        · exact ⟨calls, t, by rw [← hrun, List.append_assoc], hin⟩
        · exact hbytes.inside p hp hstart

end Runs


/-- A number that the lexer hands over is spelled out by the bytes that it has read since it was looking
for a token, and an integer has the value of its digits. -/
theorem number_tokens_sound {before chunks : List (List UInt8)} {lexer : Lexer}
    {calls l after : List (LexerCall δ)} {f : LexerCall δ}
    (hpush : observe LexerCall.isError (lexerPushAll cfg .zero before) = (calls, some (0, lexer)))
    (hs : lexer.state = .lookupToken) (htrace : trace cfg lexer 0 chunks = l ++ f :: after)
    (hf : ¬f.NoNumber) :
    ∃ (start : List UInt8) (n : Numeral) (b : UInt8) (rest : List UInt8) (s : Scan),
      chunks.flatten = start ++ n.text ++ b :: rest ∧ Consumes δ cfg lexer start n.text ∧
      (scanner cfg).run ⟨lexer, 0⟩ (start ++ n.text) = (l, .ok s) ∧
      TokenOf n (.buffer (start.length + n.text.length - 1)) f := by
  have h := atLookup_of_push hbits hpush hs
  have herror : f.isError = false := by
    cases f with
    | tokeni v position | tokenf x position => rfl
    | _ => exact absurd trivial hf
  obtain ⟨after', hcalls⟩ := trace_call herror htrace
  obtain ⟨pre, b, rest, calls', s, qs, rs, hflat, hrun, hstep, rfl, -⟩ :=
    (scanner cfg).run_split_output hcalls
  obtain ⟨hin, htoken⟩ := scanStep_token hbits hstep hf
  obtain ⟨start, text, rfl, hbytes, htext⟩ := run_reading hbits h hrun hin
  obtain ⟨n, rfl, rfl, hn⟩ := htoken text htext
  refine ⟨start, n, b, rest, s, hflat, hbytes, by rw [hrun, List.append_nil], ?_⟩
  have hindex := scanner_run_index hrun
  rw [zero_add, List.length_append, Nat.cast_add] at hindex
  rwa [← hindex]

end Widths

def twoChunks : List (List UInt8) := ["-1", "2,"].map fun text => text.toList.map Char.toUInt8

theorem number_tokens_sound_twoChunks :
    ∃ (start : List UInt8) (n : Numeral) (b : UInt8) (rest : List UInt8) (s : Scan),
      twoChunks.flatten = start ++ n.text ++ b :: rest ∧ Consumes ℚ .default .zero start n.text ∧
      (scanner .default).run ⟨.zero, 0⟩ (start ++ n.text) = (([] : List (LexerCall ℚ)), .ok s) ∧
      TokenOf n (.buffer (start.length + n.text.length - 1))
        (.tokeni (-12) (.buffer 2) : LexerCall ℚ) := by
  have hbits : 8 ≤ Config.default.intBits := by decide
  have hpush : observe LexerCall.isError (lexerPushAll (δ := ℚ) .default .zero []) =
      ([], some (0, .zero)) := rfl
  have htrace : trace (δ := ℚ) .default .zero 0 twoChunks =
      [] ++ .tokeni (-12) (.buffer 2) :: [.token .comma (.buffer 3)] := by decide +kernel
  exact number_tokens_sound hbits hpush rfl htrace id

end Embedjson
