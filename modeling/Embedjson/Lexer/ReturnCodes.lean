import Embedjson.Lexer.Finalize

namespace Embedjson

open Foundations Foundations.Program

variable {δ α : Type}

def flowCode : Flow α → ℤ
  | .ok _ => 0
  | .error r => r

def Flow.Fails (a : Flow α) : Prop := ∃ r, a = .error r

/-- The code returns a failing code of a callee, and any code of `embedjson_error_ex`. -/
structure Relays (p : LexerProgram δ α) : Prop where
  failsFast : FailsFast flowCode p
  endsAt : EndsAt LexerCall.isError Flow.Fails p

lemma relays_fallThrough (a : α) : Relays (fallThrough a : LexerProgram δ α) := ⟨rfl, trivial⟩

lemma relays_returnError (code : ErrorCode) (p : Pointer) :
    Relays (returnError code p : LexerProgram δ α) :=
  ⟨⟨fun r _ => ⟨.error r, rfl, rfl⟩, rfl⟩, fun _ r => ⟨.error r, rfl, r, rfl⟩, fun _ => trivial⟩

lemma Relays.ite {p : Prop} [Decidable p] {k m : LexerProgram δ α} (hk : Relays k)
    (hm : Relays m) : Relays (if p then k else m) := by
  by_cases h : p
  · rwa [if_pos h]
  · rwa [if_neg h]

lemma Relays.returnIf {f : LexerCall δ} {k : LexerProgram δ α} (hf : f.isError = false)
    (hk : Relays k) : Relays (returnIf f k) := by
  refine ⟨⟨fun r hr => ⟨.error r, if_pos hr, rfl⟩, hk.failsFast⟩, fun h => ?_, fun r => ?_⟩
  · rw [hf] at h
    cases h
  · dsimp only
    split_ifs
    · trivial
    · exact hk.endsAt

lemma Relays.flush {f : Pointer → List UInt8 → LexerCall δ} {k : LexerProgram δ α} (hk : Relays k)
    (hf : ∀ data bytes, (f data bytes).isError = false) (chunk : List UInt8) (c : Cursor) :
    Relays (flush f chunk c k) :=
  .ite (hk.returnIf (hf _ _)) hk

lemma relays_report {f : LexerCall δ} (hf : f.isError = false) (a : α) :
    Relays (returnIf f (fallThrough a) : LexerProgram δ α) :=
  (relays_fallThrough a).returnIf hf

variable {chunk : List UInt8} {c : Cursor} {b : UInt8} {cfg : Config}

lemma lookupToken_relays : Relays (lookupToken c b : LexerProgram δ Cursor) := by
  refine .ite (relays_fallThrough _) ?_
  iterate 7 refine .ite (relays_report rfl _) ?_
  iterate 4 refine .ite (relays_fallThrough _) ?_
  exact .ite (relays_returnError _ _) (.ite (relays_fallThrough _) (relays_returnError _ _))

lemma inString_relays : Relays (inString cfg chunk c b : LexerProgram δ Cursor) := by
  unfold inString
  rcases checkUtf8 cfg c.lex b with code | ⟨lex, last⟩
  · exact relays_returnError _ _
  · cases last with
    | false => exact relays_fallThrough _
    | true =>
      exact .ite ((relays_fallThrough _).flush (fun _ _ => rfl) _ _)
        (.ite ((relays_report rfl _).flush (fun _ _ => rfl) _ _)
        (.ite (relays_returnError _ _) (relays_fallThrough _)))

lemma inStringEscape_relays : Relays (inStringEscape c b : LexerProgram δ Cursor) := by
  unfold inStringEscape
  cases escapeByte b with
  | some e => exact relays_report rfl _
  | none => exact .ite (relays_fallThrough _) (relays_returnError _ _)

lemma inStringUnicodeEscape_relays :
    Relays (inStringUnicodeEscape c b : LexerProgram δ Cursor) := by
  unfold inStringUnicodeEscape
  cases hexDigit b with
  | none => exact relays_returnError _ _
  | some value => exact .ite (relays_report rfl _) (relays_fallThrough _)

lemma inNumberSign_relays : Relays (inNumberSign cfg c b : LexerProgram δ Cursor) :=
  .ite (relays_fallThrough _) (relays_returnError _ _)

lemma inNumber_relays : Relays (inNumber cfg c b : LexerProgram δ Cursor) :=
  .ite (.ite (relays_returnError _ _) (.ite (.ite (relays_report rfl _)
      (relays_returnError _ _)) (relays_fallThrough _)))
    (.ite (relays_fallThrough _) (.ite (relays_fallThrough _) (relays_report rfl _)))

lemma inNumberExpSign_relays : Relays (inNumberExpSign c b : LexerProgram δ Cursor) :=
  .ite (relays_fallThrough _) (.ite (relays_fallThrough _)
    (.ite (relays_returnError _ _) (relays_fallThrough _)))

lemma inBigNumber_relays : Relays (inBigNumber chunk c b : LexerProgram δ Cursor) :=
  .ite (relays_fallThrough _) ((relays_report rfl _).flush (fun _ _ => rfl) _ _)

lemma inKeyword_relays (keyword : String) (code : ErrorCode) (tok : Tok) (last : ℕ) :
    Relays (inKeyword keyword code tok last c b : LexerProgram δ Cursor) :=
  .ite (relays_returnError _ _) (.ite (relays_report rfl _) (relays_fallThrough _))

lemma flushEnd_relays : Relays (flushEnd chunk c : LexerProgram δ Lexer) := by
  unfold flushEnd
  cases c.lex.state with
  | inString | inBigNumber => exact (relays_fallThrough _).flush (fun _ _ => rfl) _ _
  | _ => exact relays_fallThrough _

variable [DoubleArith δ]

lemma inNumberFrac_relays : Relays (inNumberFrac c b : LexerProgram δ Cursor) :=
  .ite (relays_fallThrough _) (.ite (.ite (relays_returnError _ _) (relays_fallThrough _))
    (.ite (relays_returnError _ _) (relays_report rfl _)))

lemma inNumberExp_relays : Relays (inNumberExp c b : LexerProgram δ Cursor) :=
  .ite (.ite (relays_returnError _ _) (relays_fallThrough _))
    (.ite (relays_returnError _ _) (relays_report rfl _))

lemma dispatch_relays : Relays (dispatch cfg chunk c b : LexerProgram δ Cursor) := by
  unfold dispatch
  cases c.lex.state with
  | lookupToken => exact lookupToken_relays
  | inString => exact inString_relays
  | inStringEscape => exact inStringEscape_relays
  | inStringUnicodeEscape => exact inStringUnicodeEscape_relays
  | inNumberSign => exact inNumberSign_relays
  | inNumber => exact inNumber_relays
  | inNumberFrac => exact inNumberFrac_relays
  | inNumberExpSign => exact inNumberExpSign_relays
  | inNumberExp => exact inNumberExp_relays
  | inBigNumber => exact inBigNumber_relays
  | inTrue | inFalse | inNull => exact inKeyword_relays _ _ _ _

def loopCode : Option (Flow α) → ℤ
  | none => 0
  | some a => flowCode a

lemma loop_failsFast (fuel : ℕ) (c : Cursor) :
    FailsFast loopCode (loop cfg chunk fuel c : Program (LexerCall δ) _) := by
  induction fuel generalizing c with
  | zero => rfl
  | succ fuel ih =>
    rw [loop]
    by_cases hend : c.data = chunk.length
    · rw [if_pos hend]
      rfl
    · rw [if_neg hend]
      cases deref chunk c.data with
      | none => rfl
      | some b =>
        refine dispatch_relays.failsFast.bind (fun a ha => ?_) fun a ha => ?_
        · cases a with
          | error r => exact ha
          | ok c' => exact ih _
        · cases a with
          | error r => exact ⟨_, rfl, rfl⟩
          | ok c' => exact absurd rfl ha

theorem embedjsonLexerPush_failsFast (lexer : Lexer) :
    FailsFast Prod.fst
      (embedjsonLexerPush cfg chunk lexer : Program (LexerCall δ) (ℤ × Lexer)) := by
  refine (loop_failsFast _ _).bind (fun a ha => ?_) fun a ha => ?_
  · cases a with
    | none => rfl
    | some a =>
      cases a with
      | error r => exact ha
      | ok c =>
        refine flushEnd_relays.failsFast.bind (fun a ha => ?_) fun a ha => ?_
        · cases a with
          | error r => exact ha
          | ok lex => rfl
        · cases a with
          | error r => exact ⟨_, rfl, rfl⟩
          | ok lex => exact absurd rfl ha
  · cases a with
    | none => exact absurd rfl ha
    | some a =>
      cases a with
      | error r => exact ⟨_, rfl, rfl⟩
      | ok c => exact absurd rfl ha

lemma loop_endsAt (fuel : ℕ) (c : Cursor) : EndsAt LexerCall.isError (fun r => ∃ a, r = some (.error a))
    (loop cfg chunk fuel c : Program (LexerCall δ) _) := by
  induction fuel generalizing c with
  | zero => trivial
  | succ fuel ih =>
    rw [loop]
    by_cases hend : c.data = chunk.length
    · rw [if_pos hend]
      trivial
    · rw [if_neg hend]
      cases deref chunk c.data with
      | none => trivial
      | some b =>
        refine dispatch_relays.endsAt.bind (fun a => ?_) ?_
        · cases a with
          | error r => trivial
          | ok c' => exact ih _
        · rintro _ ⟨r, rfl⟩
          exact ⟨_, rfl, r, rfl⟩

lemma embedjsonLexerPush_endsAt (lexer : Lexer) : EndsAt LexerCall.isError (fun _ => True)
    (embedjsonLexerPush cfg chunk lexer : Program (LexerCall δ) (ℤ × Lexer)) := by
  refine (loop_endsAt _ _).bind (fun a => ?_) ?_
  · cases a with
    | none => trivial
    | some a =>
      cases a with
      | error r => trivial
      | ok c =>
        refine flushEnd_relays.endsAt.bind (fun a => ?_) ?_
        · cases a <;> trivial
        · rintro _ ⟨r, rfl⟩
          exact ⟨_, rfl, trivial⟩
  · rintro _ ⟨r, rfl⟩
    exact ⟨_, rfl, trivial⟩

theorem embedjsonLexerFinalize_failsFast (lexer : Lexer) :
    FailsFast id (embedjsonLexerFinalize cfg lexer : Program (LexerCall δ) ℤ) := by
  unfold embedjsonLexerFinalize
  cases lexer.state with
  | lookupToken => rfl
  | _ => exact failsFast_invoke _

end Embedjson
