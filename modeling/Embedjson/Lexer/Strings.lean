import Embedjson.Lexer.Validator

namespace Embedjson

open Foundations Foundations.Utf8

variable {δ : Type} {cfg : Config} {b : UInt8} {nb cc nb' cc' : ℕ}

/-- Inside a string and outside its escapes, with the counters of the validator. -/
structure InText (lex : Lexer) (nb cc : ℕ) : Prop where
  state : lex.state = .inString
  nb : lex.nb = nb
  cc : lex.cc = cc

variable [DoubleArith δ] (hv : cfg.validateUtf8 = true) {s : Scan}

section Text

lemma react_inText (ht : InText s.lex nb cc) :
    (react cfg (recordMagic s.lex b) s.index b : Reaction δ) =
      .ofString cfg (recordMagic s.lex b) (.buffer s.index) b := by
  rw [react, recordMagic_state, ht.state]

include hv

lemma checkUtf8_recorded (ht : InText s.lex nb cc) {last : Bool}
    (h : validate nb cc b = some (nb', cc', last)) :
    checkUtf8 cfg (recordMagic s.lex b) b =
      .ok ({ recordMagic s.lex b with nb := nb', cc := cc' }, last) := by
  refine checkUtf8_of_validate hv ?_
  rw [recordMagic_nb, recordMagic_cc, ht.nb, ht.cc, h]

lemma scan_byte (ht : InText s.lex nb cc) {last : Bool}
    (h : validate nb cc b = some (nb', cc', last))
    (hb : last = true → b ≠ '\\'.toUInt8 ∧ b ≠ '\"'.toUInt8 ∧ (nb' = 0 → ¬b < 0x20)) :
    ∃ lex, scanStep (δ := δ) cfg s b = ([charCall b], .ok ⟨lex, s.index + 1⟩) ∧
      InText lex nb' cc' := by
  refine ⟨{ recordMagic s.lex b with nb := nb', cc := cc' }, scanStep_consume ?_,
    (recordMagic_state _ _).trans ht.state, rfl, rfl⟩
  rw [react_inText ht, Reaction.ofString, checkUtf8_recorded hv ht h]
  cases last with
  | false => rfl
  | true =>
    obtain ⟨h₁, h₂, h₃⟩ := hb rfl
    dsimp only
    rw [if_neg h₁, if_neg h₂, if_neg fun hc => h₃ hc.2.1 hc.2.2]

lemma scan_refused (ht : InText s.lex nb cc) (h : validate nb cc b = none) :
    ∃ code, scanStep (δ := δ) cfg s b = ([], .error code) := by
  have hnone : validate (recordMagic s.lex b).nb (recordMagic s.lex b).cc b = none := by
    rw [recordMagic_nb, recordMagic_cc, ht.nb, ht.cc, h]
  obtain ⟨code, hc⟩ := checkUtf8_of_validate_none cfg hv hnone
  refine ⟨code, scanStep_reject ?_⟩
  rw [react_inText ht, Reaction.ofString, hc]

lemma scan_control (ht : InText s.lex nb cc) (h : validate nb cc b = some (0, cc', true))
    (hb : b < 0x20) : ∃ code, scanStep (δ := δ) cfg s b = ([], .error code) := by
  have hne (x : UInt8) (hx : ¬x < 0x20) : b ≠ x := fun h => hx (h ▸ hb)
  refine ⟨.badUtf8, scanStep_reject ?_⟩
  rw [react_inText ht, Reaction.ofString, checkUtf8_recorded hv ht h]
  dsimp only
  rw [if_neg (hne _ (by decide)), if_neg (hne _ (by decide)), if_pos ⟨hv, rfl, hb⟩]

lemma scan_quote (ht : InText s.lex nb cc)
    (h : validate nb cc '\"'.toUInt8 = some (nb', cc', true)) :
    ∃ lex, scanStep (δ := δ) cfg s '\"'.toUInt8 =
        ([.tokencEnd (.buffer s.index)], .ok ⟨lex, s.index + 1⟩) ∧
      lex.state = .lookupToken ∧ lex.nb = nb' ∧ lex.cc = cc' := by
  refine ⟨{ recordMagic s.lex '\"'.toUInt8 with nb := nb', cc := cc', state := .lookupToken },
    scanStep_consume ?_, rfl, rfl, rfl⟩
  rw [react_inText ht, Reaction.ofString, checkUtf8_recorded hv ht h]
  dsimp only
  rw [if_neg (by decide), if_pos rfl]

lemma scan_backslash (ht : InText s.lex nb cc)
    (h : validate nb cc '\\'.toUInt8 = some (nb', cc', true)) :
    ∃ lex, scanStep (δ := δ) cfg s '\\'.toUInt8 = ([], .ok ⟨lex, s.index + 1⟩) ∧
      lex.state = .inStringEscape ∧ lex.nb = nb' ∧ lex.cc = cc' := by
  refine ⟨{ recordMagic s.lex '\\'.toUInt8 with nb := nb', cc := cc', state := .inStringEscape },
    scanStep_consume ?_, rfl, rfl, rfl⟩
  rw [react_inText ht, Reaction.ofString, checkUtf8_recorded hv ht h]
  dsimp only
  rw [if_pos rfl]

end Text

section Escapes

variable (cfg) in
lemma scan_simpleEscape (hs : s.lex.state = .inStringEscape) {e : UInt8} (h : escapeByte b = some e) :
    ∃ lex, scanStep (δ := δ) cfg s b = ([charCall e], .ok ⟨lex, s.index + 1⟩) ∧
      InText lex s.lex.nb s.lex.cc := by
  refine ⟨{ recordMagic s.lex b with state := .inString }, scanStep_consume ?_, rfl,
    recordMagic_nb _ _, recordMagic_cc _ _⟩
  rw [react, recordMagic_state, hs]
  simp only [Reaction.ofEscape, h]

/-- Inside the four digits of an escape, `k` of which have been read. -/
structure InDigits (lex : Lexer) (k nb cc : ℕ) : Prop where
  state : lex.state = .inStringUnicodeEscape
  offset : lex.offset = k
  nb : lex.nb = nb
  cc : lex.cc = cc

variable (cfg) in
lemma scan_unicodeEscape (hs : s.lex.state = .inStringEscape) :
    ∃ lex, scanStep (δ := δ) cfg s 'u'.toUInt8 = ([], .ok ⟨lex, s.index + 1⟩) ∧
      InDigits lex 0 s.lex.nb s.lex.cc := by
  refine ⟨{ recordMagic s.lex 'u'.toUInt8 with state := .inStringUnicodeEscape, offset := 0 },
    scanStep_consume ?_, rfl, rfl, recordMagic_nb _ _, recordMagic_cc _ _⟩
  rw [react, recordMagic_state, hs]
  rfl

lemma scan_badEscape (hs : s.lex.state = .inStringEscape) (h : escapeByte b = none)
    (hu : b ≠ 'u'.toUInt8) : scanStep (δ := δ) cfg s b = ([], .error .badEscape) := by
  refine scanStep_reject ?_
  rw [react, recordMagic_state, hs]
  simp only [Reaction.ofEscape, h, if_neg hu]

variable (cfg) in
lemma scan_digit {k : ℕ} (hs : InDigits s.lex k nb cc) (hk : k < 3) {value : UInt8}
    (h : hexDigit b = some value) :
    ∃ lex, scanStep (δ := δ) cfg s b = ([], .ok ⟨lex, s.index + 1⟩) ∧
      InDigits lex (k + 1) nb cc := by
  have hoffset : (recordMagic s.lex b).offset ≠ 3 := by rw [recordMagic_offset, hs.offset]; omega
  refine ⟨pushHexDigit (recordMagic s.lex b) value, scanStep_consume ?_, ?_, ?_,
    (recordMagic_nb _ _).trans hs.nb, (recordMagic_cc _ _).trans hs.cc⟩
  · rw [react, recordMagic_state, hs.state]
    simp only [Reaction.ofUnicodeEscape, h, if_neg hoffset]
  · simp only [pushHexDigit, if_neg hoffset, recordMagic_state, hs.state]
  · simp only [pushHexDigit, recordMagic_offset, hs.offset]

variable (cfg) in
lemma scan_lastDigit (hs : InDigits s.lex 3 nb cc) {value : UInt8} (h : hexDigit b = some value) :
    ∃ lex x y, scanStep (δ := δ) cfg s b = ([charCall x, charCall y], .ok ⟨lex, s.index + 1⟩) ∧
      InText lex nb cc := by
  have hoffset : (recordMagic s.lex b).offset = 3 := by rw [recordMagic_offset, hs.offset]
  refine ⟨pushHexDigit (recordMagic s.lex b) value,
    (pushHexDigit (recordMagic s.lex b) value).unicodeCp.1,
    (pushHexDigit (recordMagic s.lex b) value).unicodeCp.2, scanStep_consume ?_, ?_,
    (recordMagic_nb _ _).trans hs.nb, (recordMagic_cc _ _).trans hs.cc⟩
  · rw [react, recordMagic_state, hs.state]
    simp only [Reaction.ofUnicodeEscape, h, if_pos hoffset]
  · simp only [pushHexDigit, if_pos hoffset]

lemma scan_badDigit {k : ℕ} (hs : InDigits s.lex k nb cc) (h : hexDigit b = none) :
    scanStep (δ := δ) cfg s b = ([], .error .badUnicodeEscape) := by
  refine scanStep_reject ?_
  rw [react, recordMagic_state, hs.state]
  simp only [Reaction.ofUnicodeEscape, h]

end Escapes

end Embedjson
