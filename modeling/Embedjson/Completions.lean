import Embedjson.DocumentLanguage

namespace Embedjson

open Foundations Foundations.Program Foundations.Utf8 Json

variable {δ : Type} [DoubleArith δ] {cfg : Config} {text bytes : List UInt8} {x : Lexeme δ}
  {ts : List (Lexeme δ)}

section Encoding

lemma Digits.ascii {ds : List UInt8} (h : Digits ds) : ∀ b ∈ ds, b ≤ 0x7f := by
  intro b hb
  have hdigit := h b hb
  rw [isDigit, Bool.and_eq_true] at hdigit
  exact UInt8.le_trans (of_decide_eq_true hdigit.2) (by decide)

lemma minusText_ascii (minus : Bool) : ∀ b ∈ minusText minus, b ≤ 0x7f := by
  cases minus with
  | false => exact List.forall_mem_nil _
  | true => exact List.forall_mem_singleton.mpr (by decide)

lemma Mantissa.ascii (m : Mantissa) : ∀ b ∈ m.text, b ≤ 0x7f := by
  rw [Mantissa.text, List.forall_mem_append, List.forall_mem_append]
  refine ⟨⟨minusText_ascii m.minus, m.isInt.digits.ascii⟩, ?_⟩
  cases hfrac : m.frac with
  | none => exact List.forall_mem_nil _
  | some fs =>
    have hfs : Digits fs := (m.isFrac fs hfrac).1
    exact List.forall_mem_cons.mpr ⟨by decide, hfs.ascii⟩

lemma Exponent.ascii (e : Exponent) : ∀ b ∈ e.text, b ≤ 0x7f := by
  have hletter : e.letter ≤ 0x7f := by
    rcases e.isLetter with h | h <;> rw [h] <;> decide
  have hsign : ∀ b ∈ e.sign.toList, b ≤ 0x7f := by
    intro b hb
    rcases e.isSign b (Option.mem_toList.mp hb) with rfl | rfl <;> decide
  rw [Exponent.text, List.cons_append, List.forall_mem_cons, List.forall_mem_append]
  exact ⟨hletter, hsign, e.isDigits.1.ascii⟩

lemma Numeral.ascii (n : Numeral) : ∀ b ∈ n.text, b ≤ 0x7f := by
  rw [Numeral.text, List.forall_mem_append]
  refine ⟨n.toMantissa.ascii, ?_⟩
  cases n.exp with
  | none => exact List.forall_mem_nil _
  | some e => exact e.ascii

lemma Stub.ascii {text : List UInt8} {y : δ} (h : Stub cfg text y) : ∀ b ∈ text, b ≤ 0x7f := by
  cases h with
  | @frac minus ds fs hint hfits hfs hlen =>
    rw [List.forall_mem_append, List.forall_mem_append, List.forall_mem_cons]
    exact ⟨⟨minusText_ascii minus, hint.digits.ascii⟩, by decide, hfs.ascii⟩
  | @exp m letter sign hfits hfrac hletter hsign =>
    have hletter : letter ≤ 0x7f := by
      rcases hletter with rfl | rfl <;> decide
    have hsign : sign ≤ 0x7f := by
      rcases hsign with rfl | rfl <;> decide
    rw [List.forall_mem_append, List.forall_mem_cons]
    exact ⟨m.ascii, hletter, List.forall_mem_singleton.mpr hsign⟩

lemma keyword_ascii {word : List UInt8} {tok : Tok} (hword : (word, tok) ∈ keywords) :
    ∀ b ∈ word, b ≤ 0x7f := by
  have hall : (keywords.all fun w => w.1.all fun b => b ≤ 0x7f) = true := by decide
  simpa using List.all_eq_true.mp hall _ hword

lemma item_wellFormed (item : Item) : WellFormed item.bytes := by
  cases item with
  | char c h => exact (encoded_utf8EncodeChar c).wellFormed
  | escape letter h =>
    have hall : (['\"', '\\', '/', 'b', 'f', 'n', 'r', 't'].all fun c => c.toUInt8 ≤ 0x7f) = true := by
      decide
    refine wellFormed_ascii (List.forall_mem_cons.mpr ⟨by decide, ?_⟩)
    exact List.forall_mem_singleton.mpr (of_decide_eq_true (List.all_eq_true.mp hall letter h))
  | unicode a b c d h =>
    have hall : ("0123456789abcdefABCDEF".toList.all fun c => c.toUInt8 ≤ 0x7f) = true := by decide
    have hascii {digit : Char} (hd : digit ∈ "0123456789abcdefABCDEF".toList) :
        digit.toUInt8 ≤ 0x7f := of_decide_eq_true (List.all_eq_true.mp hall digit hd)
    simp only [List.forall_mem_cons] at h
    obtain ⟨ha, hb, hc, hd, -⟩ := h
    refine wellFormed_ascii ?_
    simp only [Item.bytes, List.forall_mem_cons]
    exact ⟨by decide, by decide, hascii ha, hascii hb, hascii hc, hascii hd, List.forall_mem_nil _⟩

lemma items_wellFormed (items : List Item) : WellFormed (items.flatMap Item.bytes) := by
  induction items with
  | nil => exact wellFormed_nil
  | cons item items ih => exact (item_wellFormed item).append ih

lemma delimiter_ascii {b : UInt8} (hb : b ∈ delimiters) : b ≤ 0x7f := by
  have hall : (delimiters.all fun b => b ≤ 0x7f) = true := by decide
  exact of_decide_eq_true (List.all_eq_true.mp hall b hb)

omit [DoubleArith δ] in
lemma Spells.wellFormed (hv : cfg.validateUtf8 = true) (hx : Spells cfg text x) : WellFormed text := by
  cases hx with
  | symbol hb =>
    exact wellFormed_ascii (List.forall_mem_singleton.mpr (delimiter_ascii (structural_delimiter hb)))
  | keyword hword => exact wellFormed_ascii (keyword_ascii hword)
  | @string content out h =>
    have hquote : WellFormed ['\"'.toUInt8] := ⟨"\"".toList, rfl⟩
    obtain ⟨items, rfl, -⟩ := h.items hv
    exact (hquote.append (items_wellFormed items)).append hquote

lemma Tokenises.wellFormed (hv : cfg.validateUtf8 = true) (h : Tokenises cfg bytes ts) :
    WellFormed bytes := by
  induction h with
  | nil => exact wellFormed_nil
  | space hb h ih =>
    have hascii := delimiter_ascii (whitespace_delimiter hb).1
    exact (wellFormed_ascii (List.forall_mem_singleton.mpr hascii)).append ih
  | token hx h ih => exact (hx.wellFormed hv).append ih
  | @number n _ _ hn hend h ih => exact (wellFormed_ascii n.ascii).append ih
  | stub h => exact wellFormed_ascii h.ascii

end Encoding

section Tokens

lemma Leads.append {more : List UInt8} {us : List (Lexeme δ)} (h : Leads cfg text ts [])
    (h' : Leads cfg more us []) : Leads cfg (text ++ more) (ts ++ us) [] := by
  intro rest vs hvs
  rw [List.append_assoc, List.append_assoc]
  exact h _ _ (h' rest vs hvs)

lemma leads_token (hx : Spells cfg text x) : Leads cfg text [x] [] := fun _ _ h => .token hx h

lemma leads_number {n : Numeral} (hn : n.Readable cfg) :
    Leads cfg (n.text ++ [' '.toUInt8]) [(n.lexeme : Lexeme δ)] [] := by
  intro rest us hus
  rw [List.append_assoc]
  refine .number hn ?_ (.space (by decide) hus)
  simp only [List.singleton_append, List.head?_cons, Option.mem_some_iff, forall_eq']
  rintro (h | ⟨-, (h | h) | ⟨-, h⟩⟩)
  · cases h
  · cases h
  · cases h
  · cases h

lemma isInt_zero : IsInt ['0'.toUInt8] :=
  ⟨List.forall_mem_singleton.mpr rfl, List.cons_ne_nil _ _, fun _ => rfl⟩

def zeroNumeral : Numeral := ⟨integerMantissa false isInt_zero, none⟩

lemma fitsInt_zero (hbits : 8 ≤ cfg.intBits) : FitsInt cfg ['0'.toUInt8] := by
  have hlarge := intMax_large hbits
  change (0 : ℤ) ≤ cfg.intMax / 10
  omega

lemma leads_zero (hbits : 8 ≤ cfg.intBits) :
    Leads cfg ['0'.toUInt8, ' '.toUInt8] [(.int 0 : Lexeme δ)] [] :=
  leads_number (n := zeroNumeral) ⟨fitsInt_zero hbits, isFrac_none_mod, by simp [zeroNumeral]⟩

lemma leads_empty : Leads cfg ['\"'.toUInt8, '\"'.toUInt8] [(.string [] : Lexeme δ)] [] := by
  have hcontent : Content cfg [] [] := ⟨.nil, fun _ => ⟨[], rfl, by simp⟩⟩
  exact leads_token (.string hcontent)

end Tokens

def Completable (δ : Type) [DoubleArith δ] (cfg : Config) (A : Automaton) (c : Conf) : Prop :=
  ∃ text, ∃ ts : List (Lexeme δ), ∃ us c', Leads cfg text ts [] ∧
    A.machine.run c ts = (us, .ok c') ∧ c'.state = .done

section Configurations

variable {A : Automaton} {c c' : Conf}

lemma Completable.lexeme {us : List (UserCall δ)} (hleads : Leads cfg text [x] [])
    (hx : A.lexeme c x = some (us, c')) (h : Completable δ cfg A c') : Completable δ cfg A c := by
  obtain ⟨more, ts, vs, c'', hmore, hrun, hdone⟩ := h
  refine ⟨text ++ more, x :: ts, us ++ vs, c'', hleads.append hmore, ?_, hdone⟩
  rw [Transducer.run_cons_ok _ (Automaton.machine_step_ok.mpr hx), hrun]

lemma completable_done {stack : List StackValue} : Completable δ cfg A ⟨.done, stack⟩ :=
  ⟨[], [], [], _, leads_nil [], rfl, rfl⟩

variable (hbits : 8 ≤ cfg.intBits)

include hbits

/-- Nothing is opened, so the capacity of the stack does not matter. -/
lemma completable (hA : A.afterEmptyArray = .maybeObjectKey ∨ A.afterEmptyArray = .maybeObjectComma)
    (stack : List StackValue) {state : ParserState} (hc : Conf.Wf ⟨state, stack⟩) :
    Completable δ cfg A ⟨state, stack⟩ := by
  induction stack generalizing state with
  | nil =>
    cases state with
    | expectValue => exact .lexeme (leads_zero hbits) rfl completable_done
    | done => exact completable_done
    | invalid => exact hc.elim
    | _ =>
      obtain ⟨rest, hrest⟩ := hc
      cases hrest
  | cons value stack ih =>
    have hclosed {underCurly : ParserState}
        (h : underCurly = .maybeObjectKey ∨ underCurly = .maybeObjectComma) :
        Completable δ cfg A ⟨resume underCurly stack, stack⟩ := ih (Conf.wf_resume h stack)
    have hcurly : Leads cfg ['\x7d'.toUInt8] [(.tok .closeCurlyBracket : Lexeme δ)] [] :=
      leads_token (.symbol rfl)
    have hsquare : Leads cfg [']'.toUInt8] [(.tok .closeBracket : Lexeme δ)] [] :=
      leads_token (.symbol rfl)
    have hcolon : Leads cfg [':'.toUInt8] [(.tok .colon : Lexeme δ)] [] := leads_token (.symbol rfl)
    have hmember : Completable δ cfg A ⟨.maybeObjectComma, value :: stack⟩ :=
      .lexeme hcurly rfl (hclosed (.inr rfl))
    have hvalue : Completable δ cfg A ⟨.expectObjectValue, value :: stack⟩ :=
      .lexeme (leads_zero hbits) rfl hmember
    have hkey : Completable δ cfg A ⟨.expectColon, value :: stack⟩ := .lexeme hcolon rfl hvalue
    have helement : Completable δ cfg A ⟨.maybeArrayComma, value :: stack⟩ :=
      .lexeme hsquare rfl (hclosed (.inr rfl))
    cases state with
    | expectValue => cases hc
    | maybeObjectKey => exact .lexeme hcurly rfl (hclosed (.inr rfl))
    | expectObjectKey => exact .lexeme leads_empty rfl hkey
    | expectColon => exact hkey
    | maybeObjectComma => exact hmember
    | expectObjectValue => exact hvalue
    | maybeArrayValue => exact .lexeme hsquare rfl (hclosed hA)
    | expectArrayValue => exact .lexeme (leads_zero hbits) rfl helement
    | maybeArrayComma => exact helement
    | done => cases hc
    | invalid => exact hc.elim

end Configurations

section Values

lemma digits_zero : Digits ['0'.toUInt8] := isInt_zero.digits

omit [DoubleArith δ] in
lemma Spelt.completes {lex : Lexer} (hbits : 8 ≤ cfg.intBits) (h : Spelt cfg text lex) :
    ∃ more, ∃ n : Numeral, text ++ more = n.text ++ [' '.toUInt8] ∧ n.Readable cfg := by
  cases h with
  | sign h =>
    exact ⟨['0'.toUInt8, ' '.toUInt8], ⟨integerMantissa true isInt_zero, none⟩, rfl,
      fitsInt_zero hbits, isFrac_none_mod, by simp⟩
  | @int minus ds _ hint hfits h =>
    refine ⟨[' '.toUInt8], ⟨integerMantissa minus hint, none⟩, ?_, hfits, isFrac_none_mod, by simp⟩
    simp [Numeral.text, integerMantissa_text]
  | @frac minus ds fs _ hint hfits hfs h hfields =>
    by_cases hlen : fs.length % 2 ^ 16 = 0
    · have hdigits : Digits (fs ++ ['0'.toUInt8]) := List.forall_mem_append.mpr ⟨hfs, digits_zero⟩
      let m := fractionMantissa minus hint ⟨hdigits, List.concat_ne_nil _ _⟩
      refine ⟨['0'.toUInt8, ' '.toUInt8], ⟨m, none⟩, ?_, hfits, ?_, by simp⟩
      · simp [Numeral.text, Mantissa.text, m, fractionMantissa, fracText]
      · simp [m, fractionMantissa]
        omega
    · let m := fractionMantissa minus hint ⟨hfs, ne_nil_of_length_mod hlen⟩
      refine ⟨[' '.toUInt8], ⟨m, none⟩, ?_, hfits, ?_, by simp⟩
      · simp [Numeral.text, Mantissa.text, m, fractionMantissa, fracText]
      · simpa [m, fractionMantissa] using hlen
  | @expSign m letter _ hfits hfrac hletter h hfields =>
    let e : Exponent := ⟨letter, none, ['0'.toUInt8], hletter, by simp, digits_zero, by simp⟩
    refine ⟨['0'.toUInt8, ' '.toUInt8], ⟨m, some e⟩, ?_, hfits, hfrac, ?_⟩
    · simp [Numeral.text, Exponent.text, e]
    · rintro _ ⟨⟩
      exact Int.natCast_nonneg _
  | @exp m letter sign es _ hfits hfrac hletter hsign hes hne hlimit h hfields =>
    by_cases hempty : es = []
    · subst hempty
      let e : Exponent := ⟨letter, sign, ['0'.toUInt8], hletter, hsign, digits_zero, by simp⟩
      refine ⟨['0'.toUInt8, ' '.toUInt8], ⟨m, some e⟩, ?_, hfits, hfrac, ?_⟩
      · simp [Numeral.text, Exponent.text, e]
      · rintro _ ⟨⟩
        exact Int.natCast_nonneg _
    · let e : Exponent := ⟨letter, sign, es, hletter, hsign, hes, hempty⟩
      refine ⟨[' '.toUInt8], ⟨m, some e⟩, ?_, hfits, hfrac, ?_⟩
      · simp [Numeral.text, Exponent.text, e]
      · simpa [e, Exponent.negative] using hlimit

end Values

section Strings

def AtCharacter (lex : Lexer) : Prop := lex.nb = 0 ∧ lex.cc = 0

lemma atCharacter_recordMagic {lex : Lexer} (h : AtCharacter lex) (b : UInt8) :
    AtCharacter (recordMagic lex b) :=
  ⟨(recordMagic_nb _ _).trans h.1, (recordMagic_cc _ _).trans h.2⟩

lemma react_atCharacter {lex : Lexer} {b : UInt8} (h : AtCharacter lex)
    (hb : cfg.validateUtf8 = true → b ≤ 0x7f)
    (index : ℤ) : (react cfg lex index b : Reaction δ).Keeps AtCharacter := by
  cases hin : lex.inside with
  | false =>
    have hout := react_staysOutside (δ := δ) cfg hin index b
    cases hr : (react cfg lex index b : Reaction δ) with
    | consume calls lex' =>
      rw [hr] at hout
      exact ⟨hout.1.trans h.1, hout.2.1.trans h.2⟩
    | unread calls lex' =>
      rw [hr] at hout
      exact ⟨hout.1.trans h.1, hout.2.1.trans h.2⟩
    | reject code => trivial
  | true =>
    rw [react]
    cases hs : lex.state with
    | inString =>
      have hcheck : checkUtf8 cfg lex b = .ok (lex, true) := by
        by_cases hv : cfg.validateUtf8 = true
        · exact checkUtf8_ascii cfg h.1 h.2 (hb hv)
        · exact checkUtf8_unchecked hv lex b
      simp only [Reaction.ofString, hcheck]
      exact .ite (fun _ => h) fun _ => .ite (fun _ => h) fun _ => .ite (fun _ => trivial) fun _ => h
    | inStringEscape =>
      dsimp only [Reaction.ofEscape]
      cases escapeByte b with
      | some e => exact h
      | none => exact .ite (fun _ => h) fun _ => trivial
    | inStringUnicodeEscape =>
      dsimp only [Reaction.ofUnicodeEscape]
      cases hexDigit b with
      | none => trivial
      | some value => exact .ite (fun _ => h) fun _ => h
    | _ => simp [Lexer.inside, hs] at hin

variable {s t : Scan} {calls : List (LexerCall δ)} {b : UInt8}

lemma atCharacter_step (hin : s.lex.inside = true) (h : AtCharacter s.lex)
    (hb : cfg.validateUtf8 = true → b ≤ 0x7f) (hstep : scanStep cfg s b = (calls, .ok t)) :
    AtCharacter t.lex := by
  have hin' : (recordMagic s.lex b).inside = true := by
    simpa [Lexer.inside, recordMagic_state] using hin
  have hstay := react_staysInside (δ := δ) cfg hin' s.index b
  have hkeep := react_atCharacter (δ := δ) (atCharacter_recordMagic h b) hb s.index
  cases hr : (react cfg (recordMagic s.lex b) s.index b : Reaction δ) with
  | consume calls' lex =>
    rw [scanStep_consume hr] at hstep
    cases hstep
    rw [hr] at hkeep
    exact hkeep
  | reject code =>
    rw [scanStep_reject hr] at hstep
    cases hstep
  | unread calls' lex =>
    rw [hr] at hstay
    exact hstay.elim

/-- The first byte of a character beyond ASCII is no part of an escape. -/
lemma inString_of_step (hin : s.lex.inside = true) (hb : 0xc2 ≤ b)
    (hstep : scanStep cfg s b = (calls, .ok t)) : s.lex.state = .inString := by
  have hlarge : ¬b ≤ 0x7f := fun hle => absurd (UInt8.le_trans hb hle) (by decide)
  have hletter : escapeByte b = none :=
    Option.eq_none_iff_forall_ne_some.mpr fun e he =>
      hlarge (escape_letters ((escape_tables b).1 e he)).1
  have hdigit : hexDigit b = none :=
    Option.eq_none_iff_forall_ne_some.mpr fun v hv =>
      hlarge (escape_digits ((escape_tables b).2 v hv).1).1
  cases hs : s.lex.state with
  | inString => rfl
  | inStringEscape =>
    rw [scan_badEscape hs hletter fun hu => hlarge (hu ▸ by decide)] at hstep
    cases hstep
  | inStringUnicodeEscape =>
    rw [scan_badDigit ⟨hs, rfl, rfl, rfl⟩ hdigit] at hstep
    cases hstep
  | _ => simp [Lexer.inside, hs] at hin

lemma atCharacter_of_run {cs : List Char} (hv : cfg.validateUtf8 = true) (hin : s.lex.inside = true)
    (h : AtCharacter s.lex)
    (hrun : (scanner cfg).run s (cs.flatMap String.utf8EncodeChar) = (calls, .ok t))
    (hcalls : ∀ p, .tokencEnd p ∉ calls) : AtCharacter t.lex := by
  induction cs generalizing s calls with
  | nil =>
    cases hrun
    exact h
  | cons c cs ih =>
    rw [List.flatMap_cons] at hrun
    obtain ⟨ps, qs, u, hchar, hrest, rfl⟩ := Transducer.run_append_eq_ok _ hrun
    obtain ⟨hin', -⟩ := run_inside hin hchar fun p hp => hcalls p (List.mem_append_left _ hp)
    refine ih hin' ?_ hrest fun p hp => hcalls p (List.mem_append_right _ hp)
    by_cases hascii : c.val.toNat ≤ 0x7f
    · rw [utf8EncodeChar_ascii hascii] at hchar
      obtain ⟨_, _, v, hstep, hnil, -⟩ := Transducer.run_cons_eq_ok _ hchar
      cases hnil
      refine atCharacter_step hin h (fun _ => ?_) hstep
      rw [UInt8.le_iff_toNat_le, UInt8.toNat_ofNat']
      exact (Nat.mod_le _ _).trans hascii
    · obtain ⟨a, l, hcl⟩ := List.exists_cons_of_ne_nil (encoded_utf8EncodeChar c).ne_nil
      have hfirst := hchar
      rw [hcl] at hfirst
      obtain ⟨_, _, v, hstep, -, -⟩ := Transducer.run_cons_eq_ok _ hfirst
      have hs := inString_of_step hin (utf8EncodeChar_head hascii hcl) hstep
      have ht : InText s.lex 0 0 := ⟨hs, h.1, h.2⟩
      by_cases hplane : PlaneTwo c
      · obtain ⟨os, code, herror⟩ := scan_planeTwo (δ := δ) hv hplane ht
        rw [herror] at hchar
        cases hchar
      · have hc : 0x20 ≤ c.val.toNat ∧ c ≠ '\"' ∧ c ≠ '\\' := by
          refine ⟨by omega, ?_, ?_⟩
          all_goals
            rintro rfl
            exact hascii (by decide)
        obtain ⟨text, w, hrun', hw⟩ := carries_char (δ := δ) hv hc hplane ht
        rw [hrun'] at hchar
        cases hchar
        exact ⟨hw.nb, hw.cc⟩

omit [DoubleArith δ] in
lemma reads_offset {content out : List UInt8} {lex : Lexer} (h : Reads content out lex)
    (hs : lex.state = .inStringUnicodeEscape) : lex.offset ≤ 3 := by
  rw [Reads, hs] at h
  obtain ⟨-, digits, -, -, hoffset, hkept⟩ := h
  rw [hoffset]
  rcases digits with _ | ⟨a, _ | ⟨b, _ | ⟨c, _ | ⟨d, digits⟩⟩⟩⟩
  · exact Nat.zero_le _
  · exact Nat.le_add_left 1 2
  · exact Nat.le_add_left 2 1
  · exact le_rfl
  · exact hkept.elim

omit [DoubleArith δ] in
lemma wellFormed_zeros (n : ℕ) : WellFormed (List.replicate n '0'.toUInt8) := by
  refine wellFormed_ascii fun b hb => ?_
  rw [List.eq_of_mem_replicate hb]
  decide

lemma carries_zeros (n : ℕ) {k : ℕ} (hk : n + k = 3) (hs : InDigits s.lex k 0 0) :
    Carries δ cfg s (List.replicate (n + 1) '0'.toUInt8) 0 0 := by
  have hzero : hexDigit '0'.toUInt8 = some 0 := rfl
  induction n generalizing s k with
  | zero =>
    obtain rfl : k = 3 := by omega
    obtain ⟨lex, x, y, hstep, hlex⟩ := scan_lastDigit (δ := δ) cfg hs hzero
    exact .cons [x, y] hstep (.nil hlex)
  | succ n ih =>
    obtain ⟨lex, hstep, hlex⟩ := scan_digit (δ := δ) cfg hs (by omega) hzero
    exact .cons [] hstep (ih (s := ⟨lex, _⟩) (by omega) hlex)

variable (cfg) in
lemma exists_carries {content out : List UInt8} (h : Reads content out t.lex)
    (hchar : AtCharacter t.lex) : ∃ more, WellFormed more ∧ Carries δ cfg t more 0 0 := by
  have hin := h.inside
  obtain ⟨hnb, hcc⟩ := hchar
  cases hs : t.lex.state with
  | inString => exact ⟨[], wellFormed_nil, .nil ⟨hs, hnb, hcc⟩⟩
  | inStringEscape =>
    obtain ⟨lex, hstep, hlex⟩ := scan_simpleEscape (δ := δ) cfg hs (b := 'n'.toUInt8) rfl
    rw [hnb, hcc] at hlex
    exact ⟨['n'.toUInt8], ⟨"n".toList, rfl⟩, .cons [_] hstep (.nil hlex)⟩
  | inStringUnicodeEscape =>
    have hoffset := reads_offset h hs
    exact ⟨_, wellFormed_zeros _, carries_zeros (3 - t.lex.offset) (by omega) ⟨hs, rfl, hnb, hcc⟩⟩
  | _ => simp [Lexer.inside, hs] at hin

lemma content_completes_whole (hbits : 8 ≤ cfg.intBits) {content out : List UInt8}
    (hs : AtText cfg s.lex) (hutf8 : cfg.validateUtf8 = true → WellFormed content)
    (hrun : (scanner (δ := δ) cfg).run s content = (out.map charCall, .ok t))
    (h : Reads content out t.lex) : ∃ more out', Content cfg (content ++ more) out' := by
  have hin : s.lex.inside = true := by rw [Lexer.inside, hs.text.state]
  have hbegin : AtCharacter s.lex := ⟨hs.text.nb, hs.text.cc⟩
  have hchar : AtCharacter t.lex := by
    by_cases hv : cfg.validateUtf8 = true
    · obtain ⟨cs, rfl⟩ := hutf8 hv
      exact atCharacter_of_run hv hin hbegin hrun (by simp [charCall])
    · exact scanner_run_keeps (fun _ b hlex => atCharacter_recordMagic hlex b)
        (fun lex index b hlex => react_atCharacter hlex (fun hv' => absurd hv' hv) index) hbegin hrun
  obtain ⟨more, hmore, text, u, hrun', hu⟩ := exists_carries (δ := δ) cfg h hchar
  have hall : (scanner (δ := δ) cfg).run s (content ++ more) = ((out ++ text).map charCall, .ok u) := by
    rw [Transducer.run_append_ok _ hrun, hrun', List.map_append]
  obtain ⟨out', hout, hreads⟩ := scanner_run_delivered hs.text.state hall (by simp [charCall])
  obtain rfl := map_charCall_injective hout
  simp only [Reads, hu.state] at hreads
  obtain ⟨lex, hclose, -⟩ := moves_close (δ := δ) hbits (s := u)
    ⟨scanner_run_tidy hbits hs.tidy hall, hu⟩
  rw [Transducer.run_singleton] at hclose
  exact ⟨more, out ++ text, content_of_run (fun hv => (hutf8 hv).append hmore) hs hall hclose hreads⟩

lemma content_completes (hbits : 8 ≤ cfg.intBits) {content out : List UInt8} (hs : AtText cfg s.lex)
    (hutf8 : cfg.validateUtf8 = true → ∃ tail, WellFormed (content ++ tail))
    (hrun : (scanner (δ := δ) cfg).run s content = (out.map charCall, .ok t))
    (h : Reads content out t.lex) : ∃ more out', Content cfg (content ++ more) out' := by
  by_cases hwhole : cfg.validateUtf8 = true → WellFormed content
  · exact content_completes_whole hbits hs hwhole hrun h
  obtain ⟨hv, hcut⟩ := Classical.not_imp.mp hwhole
  obtain ⟨tail, htail⟩ := hutf8 hv
  obtain ⟨front, part, rest, rfl, hfront, hpart, hrest, hchar⟩ := htail.cut.resolve_left hcut
  have hin : s.lex.inside = true := by rw [Lexer.inside, hs.text.state]
  have hbegin : AtCharacter s.lex := ⟨hs.text.nb, hs.text.cc⟩
  obtain ⟨before, after, u, hbefore, hafter, hcalls⟩ := Transducer.run_append_eq_ok _ hrun
  have hchunks (p : Pointer) : .tokencEnd p ∉ before := by
    intro hmem
    have hall : .tokencEnd p ∈ (out.map charCall : List (LexerCall δ)) :=
      hcalls ▸ List.mem_append_left _ hmem
    simp [charCall] at hall
  have hu : AtCharacter u.lex := by
    obtain ⟨cs, rfl⟩ := hfront
    exact atCharacter_of_run hv hin hbegin hbefore hchunks
  have htext : InText u.lex 0 0 := by
    obtain ⟨a, part, rfl⟩ := List.exists_cons_of_ne_nil hpart
    obtain ⟨_, _, _, hstep, -, -⟩ := Transducer.run_cons_eq_ok _ hafter
    have hlead : 0xc2 ≤ a :=
      (hchar.first.resolve_left (hchar.not_ascii hpart hrest List.mem_cons_self)).1
    exact ⟨inString_of_step (run_inside hin hbefore hchunks).1 hlead hstep, hu.1, hu.2⟩
  obtain ⟨fin, hfin, text, w, hrun', -⟩ := exists_character hv hchar hpart hrest htext hafter
  obtain ⟨out', rfl, -⟩ := scanner_run_delivered hs.text.state hbefore hchunks
  have hall : (scanner (δ := δ) cfg).run s (front ++ (part ++ fin)) =
      ((out' ++ text).map charCall, .ok w) := by
    rw [Transducer.run_append_ok _ hbefore, hrun', List.map_append]
  obtain ⟨out'', hout, hreads⟩ := scanner_run_delivered hs.text.state hall (by simp [charCall])
  obtain rfl := map_charCall_injective hout
  obtain ⟨more, out'', hcontent⟩ := content_completes_whole hbits hs
    (fun _ => hfront.append hfin.wellFormed) hall hreads
  exact ⟨fin ++ more, out'', by simpa using hcontent⟩

end Strings

end Embedjson
