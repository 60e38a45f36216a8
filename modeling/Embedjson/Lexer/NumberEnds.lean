import Embedjson.Lexer.Simulation

namespace Embedjson

open Foundations Foundations.Program

variable {δ : Type} [DoubleArith δ] {cfg : Config} {lex : Lexer} {b : UInt8} {index : ℤ}

/-- A lexer in this state decrements `data` when it comes to the byte. -/
def Lexer.endsNumber (lex : Lexer) (b : UInt8) : Bool :=
  match lex.state with
  | .inNumber => !isDigit b && b ≠ '.'.toUInt8 && !(b = 'e'.toUInt8 ∨ b = 'E'.toUInt8)
  | .inNumberFrac => !isDigit b && !(b = 'e'.toUInt8 ∨ b = 'E'.toUInt8) && lex.fracPower ≠ 0
  | .inNumberExp => !isDigit b && lex.expNotEmpty
  | .inBigNumber => !(isDigit b ∨ b = 'e'.toUInt8 ∨ b = 'E'.toUInt8 ∨ b = '-'.toUInt8 ∨ b = '.'.toUInt8)
  | _ => false

@[simp] lemma recordMagic_endsNumber (lex : Lexer) (b c : UInt8) :
    (recordMagic lex b).endsNumber c = lex.endsNumber c := by
  simp only [Lexer.endsNumber, recordMagic_state, recordMagic_fracPower, recordMagic_expNotEmpty]

lemma endsNumber_lookupToken {lex : Lexer} (hs : lex.state = .lookupToken) (b : UInt8) :
    lex.endsNumber b = false := by
  rw [Lexer.endsNumber, hs]

section Reactions

variable {calls : List (LexerCall δ)} {code : ErrorCode}

omit [DoubleArith δ]

@[simp] lemma isUnread_consume : (Reaction.consume calls lex).isUnread = false := rfl

@[simp] lemma isUnread_unread : (Reaction.unread calls lex).isUnread = true := rfl

@[simp] lemma isUnread_reject : (Reaction.reject code : Reaction δ).isUnread = false := rfl

@[simp] lemma isUnread_ite {p : Prop} [Decidable p] {r s : Reaction δ} :
    (if p then r else s).isUnread = if p then r.isUnread else s.isUnread :=
  apply_ite Reaction.isUnread p r s

lemma string_isUnread (at_ : Pointer) :
    (Reaction.ofString cfg lex at_ b : Reaction δ).isUnread = false := by
  rw [Reaction.ofString]
  rcases checkUtf8 cfg lex b with code | ⟨lex', last⟩
  · rfl
  · cases last
    · rfl
    · simp

lemma escape_isUnread : (Reaction.ofEscape lex b : Reaction δ).isUnread = false := by
  rw [Reaction.ofEscape]
  cases escapeByte b with
  | some e => rfl
  | none => simp

lemma unicodeEscape_isUnread : (Reaction.ofUnicodeEscape lex b : Reaction δ).isUnread = false := by
  rw [Reaction.ofUnicodeEscape]
  cases hexDigit b with
  | none => rfl
  | some value => simp

end Reactions

lemma react_isUnread (index : ℤ) :
    (react cfg lex index b : Reaction δ).isUnread = lex.endsNumber b := by
  rw [react, Lexer.endsNumber]
  cases hs : lex.state with
  | inString => exact string_isUnread _
  | inStringEscape => exact escape_isUnread
  | inStringUnicodeEscape => exact unicodeEscape_isUnread
  | inNumber =>
    simp only [Reaction.ofNumber, isUnread_ite, isUnread_consume, isUnread_unread, isUnread_reject,
      ite_self]
    by_cases hb : isDigit b = true <;> by_cases hp : b = '.'.toUInt8 <;> simp [hb, hp]
  | inNumberFrac =>
    simp only [Reaction.ofFrac, isUnread_ite, isUnread_consume, isUnread_unread, isUnread_reject,
      ite_self]
    by_cases hb : isDigit b = true <;> simp [hb]
  | inNumberExp => simp [Reaction.ofExp]
  | inBigNumber => simp [Reaction.ofBigNumber]
  | lookupToken => simp [Reaction.ofLookup]
  | inNumberSign => simp [Reaction.ofNumberSign]
  | inNumberExpSign => simp [Reaction.ofExpSign]
  | inTrue | inFalse | inNull =>
    simp [Reaction.ofKeyword]

end Embedjson
