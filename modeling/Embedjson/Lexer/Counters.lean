import Embedjson.Lexer.Regions

namespace Embedjson

open Foundations Foundations.Utf8

variable {δ : Type} {cfg : Config} {lex : Lexer} {b : UInt8}

def sequences : List (ℕ × ℕ) := [(1, 0), (2, 1), (3, 0), (3, 2), (3, 3)]

/-- Two bytes may be left over behind a lead whose second byte was not checked. -/
def AtRest (nb cc : ℕ) : Prop := (nb = 0 ∨ nb = 2) ∧ cc = 0

instance (nb cc : ℕ) : Decidable (AtRest nb cc) := inferInstanceAs (Decidable (_ ∧ _))

def Counted (lex : Lexer) : Prop :=
  AtRest lex.nb lex.cc ∨ lex.state = .inString ∧ (lex.nb, lex.cc) ∈ sequences

lemma counted_of_atRest {nb cc : ℕ} (h : AtRest nb cc) (hnb : lex.nb = nb) (hcc : lex.cc = cc) :
    Counted lex := .inl (hnb ▸ hcc ▸ h)

lemma Counted.atRest (h : Counted lex) (hs : lex.state ≠ .inString) : AtRest lex.nb lex.cc :=
  h.resolve_right fun hc => hs hc.1

def CountedAnswer (b : UInt8) : Option (ℕ × ℕ × Bool) → Prop
  | none => True
  | some (nb, cc, _) => (AtRest nb cc ∨ (nb, cc) ∈ sequences) ∧
      (b = '\\'.toUInt8 ∨ b = '\"'.toUInt8 → AtRest nb cc)

instance (b : UInt8) : (answer : Option (ℕ × ℕ × Bool)) → Decidable (CountedAnswer b answer)
  | none => inferInstanceAs (Decidable True)
  | some _ => inferInstanceAs (Decidable (_ ∧ _))

lemma validate_counted (b : UInt8) :
    ∀ x ∈ (0, 0) :: (2, 0) :: sequences, CountedAnswer b (validate x.1 x.2 b) := by
  revert b
  decide +kernel

variable [DoubleArith δ] (hv : cfg.validateUtf8 = true)

include hv

lemma react_counted (h : Counted lex) (index : ℤ) (b : UInt8) :
    (react cfg lex index b : Reaction δ).Keeps Counted := by
  by_cases hs : lex.state = .inString
  · have hmem : (lex.nb, lex.cc) ∈ (0, 0) :: (2, 0) :: sequences := by
      rcases h with ⟨hnb | hnb, hcc⟩ | ⟨-, h⟩
      · simp [hnb, hcc]
      · simp [hnb, hcc]
      · exact List.mem_cons_of_mem _ (List.mem_cons_of_mem _ h)
    have hval := validate_counted b _ hmem
    rw [react, hs]
    dsimp only [Reaction.ofString]
    cases hc : validate lex.nb lex.cc b with
    | none =>
      obtain ⟨code, he⟩ := checkUtf8_of_validate_none cfg hv hc
      rw [he]
      trivial
    | some a =>
      obtain ⟨n, c, last⟩ := a
      simp only [hc] at hval
      rw [checkUtf8_of_validate hv hc]
      have hstay : Reaction.Keeps Counted
          (.consume [charCall b] { lex with nb := n, cc := c } : Reaction δ) :=
        hval.1.imp_right fun h => ⟨hs, h⟩
      cases last with
      | false => exact hstay
      | true =>
        exact .ite (fun hb => .inl (hval.2 (.inl hb))) fun _ =>
          .ite (fun hb => .inl (hval.2 (.inr hb))) fun _ => .ite (fun _ => trivial) fun _ => hstay
  · have hrest := h.atRest hs
    cases hin : lex.inside with
    | true =>
      rw [react]
      cases hstate : lex.state with
      | inString => exact absurd hstate hs
      | inStringEscape =>
        dsimp only [Reaction.ofEscape]
        cases escapeByte b with
        | some e => exact .inl hrest
        | none => exact .ite (fun _ => .inl hrest) fun _ => trivial
      | inStringUnicodeEscape =>
        dsimp only [Reaction.ofUnicodeEscape]
        cases hexDigit b with
        | none => trivial
        | some value => exact .ite (fun _ => .inl hrest) fun _ => .inl hrest
      | _ => simp [Lexer.inside, hstate] at hin
    | false =>
      have hout := react_staysOutside (δ := δ) cfg hin index b
      cases hr : (react cfg lex index b : Reaction δ) with
      | consume calls lex' =>
        rw [hr] at hout
        exact counted_of_atRest hrest hout.1 hout.2.1
      | unread calls lex' =>
        rw [hr] at hout
        exact counted_of_atRest hrest hout.1 hout.2.1
      | reject code => trivial

lemma scanner_run_counted {base : ℤ} {bytes : List UInt8} {calls : List (LexerCall δ)} {t : Scan}
    (h : (scanner cfg).run ⟨.zero, base⟩ bytes = (calls, .ok t)) : Counted t.lex :=
  scanner_run_keeps (fun lex b hl => by simpa [Counted] using hl)
    (fun _ index b hl => react_counted hv hl index b) (.inl ⟨.inl rfl, rfl⟩) h

end Embedjson
