import Embedjson.Foundations.Utf8
import Embedjson.Lexer.Simulation

namespace Embedjson

open Foundations Foundations.Utf8

variable {δ : Type} {b : UInt8}

def counting (nb cc : ℕ) : Lexer := { Lexer.zero with nb := nb, cc := cc }

/-- The counters behind a byte, and whether the byte reaches the last `else` of the ladder. -/
def validate (nb cc : ℕ) (b : UInt8) : Option (ℕ × ℕ × Bool) :=
  match checkUtf8 .default (counting nb cc) b with
  | .ok (lex, last) => some (lex.nb, lex.cc, last)
  | .error _ => none

section Frame

variable {cfg : Config} {lex : Lexer}

lemma continuation_frame (lex : Lexer) (b : UInt8) :
    continuation lex b =
      (continuation (counting lex.nb lex.cc) b).map fun l => { lex with nb := l.nb, cc := l.cc } := by
  unfold continuation counting
  dsimp only
  split_ifs <;> rfl

lemma leadByte_frame (lex : Lexer) (b : UInt8) :
    leadByte lex b = (leadByte (counting lex.nb lex.cc) b).map fun a =>
      ({ lex with nb := a.1.nb, cc := a.1.cc }, a.2) := by
  unfold leadByte counting
  dsimp only
  split_ifs <;> rfl

lemma checkUtf8_frame (hv : cfg.validateUtf8 = true) (lex : Lexer) (b : UInt8) :
    checkUtf8 cfg lex b = (checkUtf8 .default (counting lex.nb lex.cc) b).map fun a =>
      ({ lex with nb := a.1.nb, cc := a.1.cc }, a.2) := by
  have hdefault : Config.default.validateUtf8 = true := rfl
  rw [checkUtf8, checkUtf8, if_pos hv, if_pos hdefault]
  have hnb : (counting lex.nb lex.cc).nb = lex.nb := rfl
  rw [hnb]
  by_cases h : lex.nb = 0
  · rw [if_neg (not_not_intro h), if_neg (not_not_intro h), leadByte_frame]
  · rw [if_pos h, if_pos h, continuation_frame]
    cases continuation (counting lex.nb lex.cc) b with
    | error code => rfl
    | ok l =>
      have hl := leadByte_frame l b
      have hlex := leadByte_frame { lex with nb := l.nb, cc := l.cc } b
      simp only [Except.map, Except.bind, hl, hlex]
      cases leadByte (counting l.nb l.cc) b <;> rfl

lemma checkUtf8_of_validate (hv : cfg.validateUtf8 = true) {nb cc : ℕ} {last : Bool}
    (h : validate lex.nb lex.cc b = some (nb, cc, last)) :
    checkUtf8 cfg lex b = .ok ({ lex with nb := nb, cc := cc }, last) := by
  rw [checkUtf8_frame hv]
  unfold validate at h
  cases hc : checkUtf8 .default (counting lex.nb lex.cc) b with
  | error code => simp [hc] at h
  | ok a =>
    simp only [hc, Option.some.injEq, Prod.mk.injEq] at h
    obtain ⟨rfl, rfl, rfl⟩ := h
    rfl

variable (cfg) in
lemma checkUtf8_of_validate_none (hv : cfg.validateUtf8 = true)
    (h : validate lex.nb lex.cc b = none) : ∃ code, checkUtf8 cfg lex b = .error code := by
  rw [checkUtf8_frame hv]
  unfold validate at h
  cases hc : checkUtf8 .default (counting lex.nb lex.cc) b with
  | error code => exact ⟨code, rfl⟩
  | ok a => simp [hc] at h

end Frame

section Table

set_option synthInstance.maxSize 512 in
lemma validate_lead (b : UInt8) :
    (b ≤ 0x7f → validate 0 0 b = some (0, 0, true)) ∧
    (0xc2 ≤ b → b ≤ 0xdf → validate 0 0 b = some (1, 0, false)) ∧
    (0xe0 ≤ b → b ≤ 0xef → validate 0 0 b = some (2, if b = 0xe0 then 1 else 0, false)) ∧
    (0xf0 ≤ b → b ≤ 0xf4 →
      validate 0 0 b = some (3, if b = 0xf0 then 2 else if b = 0xf4 then 3 else 0, false)) := by
  revert b
  decide +kernel

lemma validate_ascii (h : b ≤ 0x7f) : validate 0 0 b = some (0, 0, true) := (validate_lead b).1 h

lemma validate_lead_two (h₁ : 0xc2 ≤ b) (h₂ : b ≤ 0xdf) : validate 0 0 b = some (1, 0, false) :=
  (validate_lead b).2.1 h₁ h₂

lemma validate_lead_three (h₁ : 0xe0 ≤ b) (h₂ : b ≤ 0xef) :
    validate 0 0 b = some (2, if b = 0xe0 then 1 else 0, false) := (validate_lead b).2.2.1 h₁ h₂

lemma validate_lead_four (h₁ : 0xf0 ≤ b) (h₂ : b ≤ 0xf4) :
    validate 0 0 b = some (3, if b = 0xf0 then 2 else if b = 0xf4 then 3 else 0, false) :=
  (validate_lead b).2.2.2 h₁ h₂

set_option synthInstance.maxSize 512 in
/-- Behind `f0` the mask of the source leaves out the bytes from `a0` to `af`, and behind `f1` to `f3` and
`f5` to `f7` nothing is checked. -/
lemma validate_continuation (b : UInt8) :
    validate 1 0 b = (if Tail b then some (0, 0, true) else none) ∧
    validate 2 0 b = (if Tail b then some (1, 0, true) else none) ∧
    validate 2 1 b = (if 0xa0 ≤ b ∧ b ≤ 0xbf then some (1, 0, true) else none) ∧
    validate 3 2 b = (if (0x90 ≤ b ∧ b ≤ 0x9f) ∨ (0xb0 ≤ b ∧ b ≤ 0xbf) then some (2, 0, true)
      else none) ∧
    validate 3 3 b = (if 0x80 ≤ b ∧ b ≤ 0x8f then some (2, 0, true) else none) ∧
    (Tail b → validate 3 0 b = some (2, 0, true)) := by
  revert b
  decide +kernel

lemma validate_one (b : UInt8) : validate 1 0 b = if Tail b then some (0, 0, true) else none :=
  (validate_continuation b).1

lemma validate_two (b : UInt8) : validate 2 0 b = if Tail b then some (1, 0, true) else none :=
  (validate_continuation b).2.1

lemma validate_e0 (b : UInt8) :
    validate 2 1 b = if 0xa0 ≤ b ∧ b ≤ 0xbf then some (1, 0, true) else none :=
  (validate_continuation b).2.2.1

lemma validate_f0 (b : UInt8) : validate 3 2 b =
    if (0x90 ≤ b ∧ b ≤ 0x9f) ∨ (0xb0 ≤ b ∧ b ≤ 0xbf) then some (2, 0, true) else none :=
  (validate_continuation b).2.2.2.1

lemma validate_f4 (b : UInt8) :
    validate 3 3 b = if 0x80 ≤ b ∧ b ≤ 0x8f then some (2, 0, true) else none :=
  (validate_continuation b).2.2.2.2.1

lemma validate_three (h : Tail b) : validate 3 0 b = some (2, 0, true) :=
  (validate_continuation b).2.2.2.2.2 h

lemma tail_plain (h : Tail b) : b ≠ '\\'.toUInt8 ∧ b ≠ '\"'.toUInt8 ∧ ¬b < 0x20 := by
  revert b
  decide +kernel

end Table

end Embedjson
