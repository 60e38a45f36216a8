import Embedjson.Lexer.NumberEnds

namespace Embedjson

open Foundations Foundations.Program

variable {δ : Type} {cfg : Config} {chunk : List UInt8} {c c' : Cursor} {b : UInt8}
  {f : LexerCall δ}

/-- The position that a call hands over. The text of a string or of a big number has none. -/
def LexerCall.position : LexerCall δ → Option Pointer
  | token _ position | tokeni _ position | tokenf _ position | tokencBegin position
  | tokencEnd position | tokenbnBegin position _ | tokenbnEnd position | errorEx _ position =>
    some position
  | tokenc _ _ | tokenbn _ _ => none

/-- A call in a dispatch points to the byte, or in front of it if the byte ends a number. -/
def PointsAt (c : Cursor) (b : UInt8) (f : LexerCall δ) : Prop :=
  ∀ position ∈ f.position, position = c.position ∨
    c.lex.endsNumber b = true ∧ position = .buffer (c.data - 1)

def LeftAt (c : Cursor) (b : UInt8) : Flow Cursor → Prop
  | .error _ => True
  | .ok c' => c'.data = c.data ∨
      c.lex.endsNumber b = true ∧ c'.lex.state = .lookupToken ∧ c'.data = c.data - 1

abbrev Departs (c : Cursor) (b : UInt8) : LexerProgram δ Cursor → Prop :=
  Allows (PointsAt c b) (LeftAt c b)

lemma pointsAt_here (h : f.position = some c.position) : PointsAt c b f := by
  intro position hposition
  rw [h] at hposition
  exact .inl (Option.some.inj hposition).symm

lemma pointsAt_before (hends : c.lex.endsNumber b = true)
    (h : f.position = some (.buffer (c.data - 1))) : PointsAt c b f := by
  intro position hposition
  rw [h] at hposition
  exact .inr ⟨hends, (Option.some.inj hposition).symm⟩

lemma pointsAt_text (h : f.position = none) : PointsAt c b f := by
  intro position hposition
  rw [h] at hposition
  cases hposition

lemma Departs.ite {p : Prop} [Decidable p] {x y : LexerProgram δ Cursor} (hx : p → Departs c b x)
    (hy : ¬p → Departs c b y) : Departs c b (if p then x else y) := by
  by_cases h : p
  · rw [if_pos h]
    exact hx h
  · rw [if_neg h]
    exact hy h

lemma departs_returnError (code : ErrorCode) :
    Departs c b (returnError code c.position : LexerProgram δ Cursor) :=
  ⟨pointsAt_here rfl, fun _ => trivial⟩

lemma Departs.returnIf {k : LexerProgram δ Cursor} (hf : PointsAt c b f) (hk : Departs c b k) :
    Departs c b (returnIf f k) := ⟨hf, fun _ => Departs.ite (fun _ => trivial) fun _ => hk⟩

lemma Departs.flush {g : Pointer → List UInt8 → LexerCall δ} {k : LexerProgram δ Cursor}
    (hg : ∀ data bytes, (g data bytes).position = none) (hk : Departs c b k) (c' : Cursor) :
    Departs c b (flush g chunk c' k) :=
  .ite (fun _ => hk.returnIf (pointsAt_text (hg _ _))) fun _ => hk

lemma departs_stay (h : c'.data = c.data) :
    Departs c b (fallThrough c' : LexerProgram δ Cursor) := Or.inl h

lemma departs_back (hends : c.lex.endsNumber b = true) (hs : c'.lex.state = .lookupToken)
    (h : c'.data = c.data - 1) : Departs c b (fallThrough c' : LexerProgram δ Cursor) :=
  Or.inr ⟨hends, hs, h⟩

section Branches

lemma lookupToken_departs : Departs c b (lookupToken c b : LexerProgram δ Cursor) := by
  refine .ite (fun _ => departs_stay rfl) fun _ => ?_
  iterate 7 refine .ite (fun _ => .returnIf (pointsAt_here rfl) (departs_stay rfl)) fun _ => ?_
  iterate 4 refine .ite (fun _ => departs_stay rfl) fun _ => ?_
  exact .ite (fun _ => departs_returnError _) fun _ => .ite (fun _ => departs_stay rfl) fun _ =>
    departs_returnError _

lemma inString_departs : Departs c b (inString cfg chunk c b : LexerProgram δ Cursor) := by
  rw [inString]
  rcases checkUtf8 cfg c.lex b with code | ⟨lex, _ | _⟩
  · exact departs_returnError _
  · exact departs_stay rfl
  · have hstay (lex : Lexer) :
        Departs c b (fallThrough { c with lex := lex } : LexerProgram δ Cursor) := departs_stay rfl
    exact .ite (fun _ => (hstay _).flush (fun _ _ => rfl) c) fun _ =>
      .ite (fun _ => ((hstay _).returnIf (pointsAt_here rfl)).flush (fun _ _ => rfl) c) fun _ =>
        .ite (fun _ => departs_returnError _) fun _ => hstay _

lemma inStringEscape_departs : Departs c b (inStringEscape c b : LexerProgram δ Cursor) := by
  rw [inStringEscape]
  cases escapeByte b with
  | some e => exact .returnIf (pointsAt_text rfl) (departs_stay rfl)
  | none => exact .ite (fun _ => departs_stay rfl) fun _ => departs_returnError _

lemma inStringUnicodeEscape_departs :
    Departs c b (inStringUnicodeEscape c b : LexerProgram δ Cursor) := by
  rw [inStringUnicodeEscape]
  cases hexDigit b with
  | none => exact departs_returnError _
  | some value =>
    exact .ite (fun _ => .returnIf (pointsAt_text rfl) (departs_stay rfl)) fun _ => departs_stay rfl

lemma inNumberSign_departs : Departs c b (inNumberSign cfg c b : LexerProgram δ Cursor) :=
  .ite (fun _ => departs_stay rfl) fun _ => departs_returnError _

lemma inNumber_departs (hs : c.lex.state = .inNumber) :
    Departs c b (inNumber cfg c b : LexerProgram δ Cursor) := by
  refine .ite (fun _ => .ite (fun _ => departs_returnError _) fun _ => .ite (fun _ => .ite
    (fun _ => .returnIf (pointsAt_here rfl) (departs_stay rfl)) fun _ => departs_returnError _)
      fun _ => departs_stay rfl) fun hdigit => ?_
  refine .ite (fun _ => departs_stay rfl) fun hpoint => .ite (fun _ => departs_stay rfl)
    fun hexp => ?_
  have hends : c.lex.endsNumber b = true := by simp [Lexer.endsNumber, hs, hdigit, hpoint, hexp]
  exact .returnIf (pointsAt_before hends rfl) (departs_back hends rfl rfl)

lemma inNumberExpSign_departs : Departs c b (inNumberExpSign c b : LexerProgram δ Cursor) :=
  .ite (fun _ => departs_stay rfl) fun _ => .ite (fun _ => departs_stay rfl) fun _ =>
    .ite (fun _ => departs_returnError _) fun _ => departs_stay rfl

lemma inBigNumber_departs (hs : c.lex.state = .inBigNumber) :
    Departs c b (inBigNumber chunk c b : LexerProgram δ Cursor) := by
  refine .ite (fun _ => departs_stay rfl) fun hend => ?_
  have hends : c.lex.endsNumber b = true := by simpa [Lexer.endsNumber, hs] using hend
  exact .flush (fun _ _ => rfl) (.returnIf (pointsAt_before hends rfl) (departs_back hends rfl rfl)) c

lemma inKeyword_departs {keyword : String} {code : ErrorCode} {tok : Tok} {last : ℕ} :
    Departs c b (inKeyword keyword code tok last c b : LexerProgram δ Cursor) :=
  .ite (fun _ => departs_returnError _) fun _ =>
    .ite (fun _ => .returnIf (pointsAt_here rfl) (departs_stay rfl)) fun _ => departs_stay rfl

variable [DoubleArith δ]

lemma inNumberFrac_departs (hs : c.lex.state = .inNumberFrac) :
    Departs c b (inNumberFrac c b : LexerProgram δ Cursor) := by
  refine .ite (fun _ => departs_stay rfl) fun hdigit => .ite (fun _ => .ite
    (fun _ => departs_returnError _) fun _ => departs_stay rfl) fun hexp => .ite
      (fun _ => departs_returnError _) fun hempty => ?_
  have hends : c.lex.endsNumber b = true := by simp [Lexer.endsNumber, hs, hdigit, hexp, hempty]
  exact .returnIf (pointsAt_before hends rfl) (departs_back hends rfl rfl)

lemma inNumberExp_departs (hs : c.lex.state = .inNumberExp) :
    Departs c b (inNumberExp c b : LexerProgram δ Cursor) := by
  refine .ite (fun _ => .ite (fun _ => departs_returnError _) fun _ => departs_stay rfl)
    fun hdigit => .ite (fun _ => departs_returnError _) fun hempty => ?_
  have hends : c.lex.endsNumber b = true := by
    simpa [Lexer.endsNumber, hs, hdigit] using hempty
  exact .returnIf (pointsAt_before hends rfl) (departs_back hends rfl rfl)

end Branches

variable [DoubleArith δ]

/-- Only a byte that ends a number is left ahead of the cursor, and then the next state is
`lookupToken`. -/
lemma dispatch_departs (cfg : Config) (chunk : List UInt8) (c : Cursor) (b : UInt8) :
    Departs c b (dispatch cfg chunk c b : LexerProgram δ Cursor) := by
  rw [dispatch]
  cases hs : c.lex.state with
  | lookupToken => exact lookupToken_departs
  | inString => exact inString_departs
  | inStringEscape => exact inStringEscape_departs
  | inStringUnicodeEscape => exact inStringUnicodeEscape_departs
  | inNumberSign => exact inNumberSign_departs
  | inNumber => exact inNumber_departs hs
  | inNumberFrac => exact inNumberFrac_departs hs
  | inNumberExpSign => exact inNumberExpSign_departs
  | inNumberExp => exact inNumberExp_departs hs
  | inBigNumber => exact inBigNumber_departs hs
  | inTrue | inFalse | inNull => exact inKeyword_departs

end Embedjson
