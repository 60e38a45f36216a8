import Embedjson.Foundations.Transducer
import Embedjson.Lexer.Push

/-! The lexer as a transducer of bytes, without buffers and pointers. Each raw byte of a string or
of a big number is a chunk of its own, and positions count the bytes of the whole input. -/

namespace Embedjson

open Foundations

variable {δ : Type}

section Magic

lemma recordMagic_eq (lex : Lexer) (b : UInt8) :
    ∃ magic read encoding, recordMagic lex b =
      { lex with magic := magic, magicBytesRead := read, encoding := encoding } := by
  unfold recordMagic
  split_ifs
  · exact ⟨_, _, _, rfl⟩
  · exact ⟨_, _, _, rfl⟩
  · exact ⟨_, _, _, rfl⟩

lemma recordMagic_frame {α : Type} (g : Lexer → α) (lex : Lexer) (b : UInt8)
    (h : ∀ magic read encoding,
      g { lex with magic := magic, magicBytesRead := read, encoding := encoding } = g lex) :
    g (recordMagic lex b) = g lex := by
  obtain ⟨_, _, _, heq⟩ := recordMagic_eq lex b
  rw [heq, h]

variable (lex : Lexer) (b : UInt8)

@[simp] lemma recordMagic_state : (recordMagic lex b).state = lex.state :=
  recordMagic_frame _ _ _ fun _ _ _ => rfl

@[simp] lemma recordMagic_nb : (recordMagic lex b).nb = lex.nb :=
  recordMagic_frame _ _ _ fun _ _ _ => rfl

@[simp] lemma recordMagic_cc : (recordMagic lex b).cc = lex.cc :=
  recordMagic_frame _ _ _ fun _ _ _ => rfl

@[simp] lemma recordMagic_offset : (recordMagic lex b).offset = lex.offset :=
  recordMagic_frame _ _ _ fun _ _ _ => rfl

@[simp] lemma recordMagic_unicodeCp : (recordMagic lex b).unicodeCp = lex.unicodeCp :=
  recordMagic_frame _ _ _ fun _ _ _ => rfl

@[simp] lemma recordMagic_intValue : (recordMagic lex b).intValue = lex.intValue :=
  recordMagic_frame _ _ _ fun _ _ _ => rfl

@[simp] lemma recordMagic_fracPower : (recordMagic lex b).fracPower = lex.fracPower :=
  recordMagic_frame _ _ _ fun _ _ _ => rfl

@[simp] lemma recordMagic_expValue : (recordMagic lex b).expValue = lex.expValue :=
  recordMagic_frame _ _ _ fun _ _ _ => rfl

@[simp] lemma recordMagic_expMinus : (recordMagic lex b).expMinus = lex.expMinus :=
  recordMagic_frame _ _ _ fun _ _ _ => rfl

@[simp] lemma recordMagic_expNotEmpty : (recordMagic lex b).expNotEmpty = lex.expNotEmpty :=
  recordMagic_frame _ _ _ fun _ _ _ => rfl

end Magic

/-- What the lexer does with one byte: move past it, look at it again, or reject it. -/
inductive Reaction (δ : Type) where
  | consume (calls : List (LexerCall δ)) (lex : Lexer)
  | unread (calls : List (LexerCall δ)) (lex : Lexer)
  | reject (code : ErrorCode)

def charCall (b : UInt8) : LexerCall δ := .tokenc .null [b]

def bignumCall (b : UInt8) : LexerCall δ := .tokenbn .null [b]

namespace Reaction

def isUnread : Reaction δ → Bool
  | unread _ _ => true
  | _ => false

def ofLookup (lex : Lexer) (at_ : Pointer) (b : UInt8) : Reaction δ :=
  if b = ' '.toUInt8 ∨ b = '\n'.toUInt8 ∨ b = '\r'.toUInt8 ∨ b = '\t'.toUInt8 then consume [] lex
  else if b = ':'.toUInt8 then consume [.token .colon at_] lex
  else if b = ','.toUInt8 then consume [.token .comma at_] lex
  else if b = '{'.toUInt8 then consume [.token .openCurlyBracket at_] lex
  else if b = '}'.toUInt8 then consume [.token .closeCurlyBracket at_] lex
  else if b = '['.toUInt8 then consume [.token .openBracket at_] lex
  else if b = ']'.toUInt8 then consume [.token .closeBracket at_] lex
  else if b = '\"'.toUInt8 then consume [.tokencBegin at_] { lex with state := .inString }
  else if b = 't'.toUInt8 then consume [] { lex with offset := 1, state := .inTrue }
  else if b = 'f'.toUInt8 then consume [] { lex with offset := 1, state := .inFalse }
  else if b = 'n'.toUInt8 then consume [] { lex with offset := 1, state := .inNull }
  else if b = '-'.toUInt8 then consume [] { lex with minus := true, state := .inNumberSign }
  else if b = '+'.toUInt8 then reject .leadingPlus
  else if isDigit b then consume [] { lex with intValue := digit b, state := .inNumber }
  else reject .unexpSymbol

def ofString (cfg : Config) (lex : Lexer) (at_ : Pointer) (b : UInt8) : Reaction δ :=
  match checkUtf8 cfg lex b with
  | .error code => reject code
  | .ok (lex, false) => consume [charCall b] lex
  | .ok (lex, true) =>
    if b = '\\'.toUInt8 then consume [] { lex with state := .inStringEscape }
    else if b = '\"'.toUInt8 then consume [.tokencEnd at_] { lex with state := .lookupToken }
    else if cfg.validateUtf8 ∧ lex.nb = 0 ∧ b < 0x20 then reject .badUtf8
    else consume [charCall b] lex

def ofEscape (lex : Lexer) (b : UInt8) : Reaction δ :=
  match escapeByte b with
  | some e => consume [charCall e] { lex with state := .inString }
  | none =>
    if b = 'u'.toUInt8 then consume [] { lex with state := .inStringUnicodeEscape, offset := 0 }
    else reject .badEscape

def ofUnicodeEscape (lex : Lexer) (b : UInt8) : Reaction δ :=
  match hexDigit b with
  | none => reject .badUnicodeEscape
  | some value =>
    if lex.offset = 3 then
      consume [charCall (pushHexDigit lex value).unicodeCp.1,
        charCall (pushHexDigit lex value).unicodeCp.2] (pushHexDigit lex value)
    else consume [] (pushHexDigit lex value)

def ofNumberSign (cfg : Config) (lex : Lexer) (b : UInt8) : Reaction δ :=
  if isDigit b then consume [] { pushIntDigit cfg lex b with state := .inNumber }
  else reject .eofInString

def ofNumber (cfg : Config) (lex : Lexer) (at_ before : Pointer) (b : UInt8) : Reaction δ :=
  if isDigit b then
    if lex.intValue = 0 then reject .leadingZero
    else if lex.intValue > cfg.toInt (cfg.intMax / 10 - digit b) then
      if cfg.bignum then
        consume [.tokenbnBegin at_ lex.intValue] { lex with state := .inBigNumber }
      else reject .intOverflow
    else consume [] (pushIntDigit cfg lex b)
  else if b = '.'.toUInt8 then consume [] { lex with state := .inNumberFrac }
  else if b = 'e'.toUInt8 ∨ b = 'E'.toUInt8 then consume [] { lex with state := .inNumberExpSign }
  else unread [.tokeni (signedInt cfg lex) before]
    { lex with intValue := 0, minus := false, state := .lookupToken }

def ofExpSign (lex : Lexer) (b : UInt8) : Reaction δ :=
  if b = '-'.toUInt8 then consume [] { lex with expMinus := true, state := .inNumberExp }
  else if isDigit b then
    consume [] { lex with expValue := (digit b).toNat, expNotEmpty := true, state := .inNumberExp }
  else if b ≠ '+'.toUInt8 then reject .badExponent
  else consume [] { lex with state := .inNumberExp }

def ofBigNumber (lex : Lexer) (before : Pointer) (b : UInt8) : Reaction δ :=
  if isDigit b ∨ b = 'e'.toUInt8 ∨ b = 'E'.toUInt8 ∨ b = '-'.toUInt8 ∨ b = '.'.toUInt8 then
    consume [bignumCall b] lex
  else unread [.tokenbnEnd before] (resetNumber lex)

def ofKeyword (keyword : String) (code : ErrorCode) (tok : Tok) (last : ℕ) (lex : Lexer)
    (at_ : Pointer) (b : UInt8) : Reaction δ :=
  if some b ≠ (keyword.toList.map Char.toUInt8 ++ [0])[lex.offset]? then reject code
  else if lex.offset + 1 > last then
    consume [.token tok at_] { lex with offset := lex.offset + 1, state := .lookupToken }
  else consume [] { lex with offset := lex.offset + 1 }

variable [DoubleArith δ]

def ofFrac (lex : Lexer) (before : Pointer) (b : UInt8) : Reaction δ :=
  if isDigit b then consume [] (pushFracDigit lex b)
  else if b = 'e'.toUInt8 ∨ b = 'E'.toUInt8 then
    if lex.fracPower = 0 then reject .emptyFrac
    else consume [] { lex with state := .inNumberExpSign }
  else if lex.fracPower = 0 then reject .emptyFrac
  else unread [.tokenf (negateIf lex.minus (fracDouble lex)) before] { lex with
    intValue := 0, fracPower := 0, fracValue := 0, minus := false, state := .lookupToken }

def ofExp (lex : Lexer) (before : Pointer) (b : UInt8) : Reaction δ :=
  if isDigit b then
    if ((pushExpDigit lex b).expMinus ∧ (pushExpDigit lex b).expValue > 323) ∨
        (¬(pushExpDigit lex b).expMinus ∧ (pushExpDigit lex b).expValue > 308) then
      reject .exponentOverflow
    else consume [] (pushExpDigit lex b)
  else if ¬lex.expNotEmpty then reject .emptyExp
  else unread [.tokenf (negateIf lex.minus (scaleByExp lex (fracDouble lex))) before]
    (resetNumber lex)

def Keeps (P : Lexer → Prop) : Reaction δ → Prop
  | consume _ lex | unread _ lex => P lex
  | reject _ => True

omit [DoubleArith δ] in
lemma Keeps.ite {P : Lexer → Prop} {p : Prop} [Decidable p] {r s : Reaction δ} (hr : p → r.Keeps P)
    (hs : ¬p → s.Keeps P) : (if p then r else s).Keeps P := by
  by_cases h : p
  · rw [if_pos h]
    exact hr h
  · rw [if_neg h]
    exact hs h

omit [DoubleArith δ] in
lemma Keeps.mono {P Q : Lexer → Prop} {r : Reaction δ} (h : r.Keeps P) (hPQ : ∀ lex, P lex → Q lex) :
    r.Keeps Q := by
  cases r with
  | consume calls lex | unread calls lex => exact hPQ lex h
  | reject code => trivial

omit [DoubleArith δ] in
lemma keeps_true (r : Reaction δ) : r.Keeps fun _ => True := by
  cases r <;> trivial

def Makes (P : LexerCall δ → Prop) : Reaction δ → Prop
  | consume calls _ | unread calls _ => ∀ f ∈ calls, P f
  | reject _ => True

section Makes

variable {P : LexerCall δ → Prop}

omit [DoubleArith δ]

lemma Makes.ite {p : Prop} [Decidable p] {r s : Reaction δ} (hr : p → r.Makes P)
    (hs : ¬p → s.Makes P) : (if p then r else s).Makes P := by
  by_cases h : p
  · rw [if_pos h]
    exact hr h
  · rw [if_neg h]
    exact hs h

lemma Makes.mono {Q : LexerCall δ → Prop} {r : Reaction δ} (h : r.Makes P) (hPQ : ∀ f, P f → Q f) :
    r.Makes Q := by
  cases r with
  | consume calls lex | unread calls lex => exact fun f hf => hPQ f (h f hf)
  | reject code => trivial

lemma makes_none (lex : Lexer) : (consume [] lex : Reaction δ).Makes P := List.forall_mem_nil _

lemma makes_one {f : LexerCall δ} (h : P f) (lex : Lexer) : (consume [f] lex).Makes P :=
  List.forall_mem_singleton.mpr h

end Makes

end Reaction

variable [DoubleArith δ] (cfg : Config)

/-- One dispatch of the byte `b` at `index`. -/
def react (lex : Lexer) (index : ℤ) (b : UInt8) : Reaction δ :=
  match lex.state with
  | .lookupToken => .ofLookup lex (.buffer index) b
  | .inString => .ofString cfg lex (.buffer index) b
  | .inStringEscape => .ofEscape lex b
  | .inStringUnicodeEscape => .ofUnicodeEscape lex b
  | .inNumberSign => .ofNumberSign cfg lex b
  | .inNumber => .ofNumber cfg lex (.buffer index) (.buffer (index - 1)) b
  | .inNumberFrac => .ofFrac lex (.buffer (index - 1)) b
  | .inNumberExpSign => .ofExpSign lex b
  | .inNumberExp => .ofExp lex (.buffer (index - 1)) b
  | .inBigNumber => .ofBigNumber lex (.buffer (index - 1)) b
  | .inTrue => .ofKeyword "true" .badTrue .true 3 lex (.buffer index) b
  | .inFalse => .ofKeyword "false" .badFalse .false 4 lex (.buffer index) b
  | .inNull => .ofKeyword "null" .badNull .null 3 lex (.buffer index) b

section Numbers

def LexerCall.NoNumber : LexerCall δ → Prop
  | tokeni _ _ | tokenf _ _ => False
  | _ => True

omit [DoubleArith δ] in
lemma keyword_plain {keyword : String} {code : ErrorCode} {tok : Tok} {last : ℕ} {lex : Lexer}
    (at_ : Pointer) (b : UInt8) :
    (Reaction.ofKeyword keyword code tok last lex at_ b : Reaction δ).Makes LexerCall.NoNumber :=
  .ite (fun _ => trivial) fun _ => .ite (fun _ => Reaction.makes_one trivial _) fun _ =>
    Reaction.makes_none _

lemma react_plain {lex : Lexer} (hint : lex.state ≠ .inNumber) (hfrac : lex.state ≠ .inNumberFrac)
    (hexp : lex.state ≠ .inNumberExp) (index : ℤ) (b : UInt8) :
    (react cfg lex index b : Reaction δ).Makes LexerCall.NoNumber := by
  have hnone (lex : Lexer) : (Reaction.consume [] lex : Reaction δ).Makes LexerCall.NoNumber :=
    Reaction.makes_none lex
  have hchar (b : UInt8) (lex : Lexer) :
      (Reaction.consume [charCall b] lex : Reaction δ).Makes LexerCall.NoNumber :=
    Reaction.makes_one trivial lex
  rw [react]
  cases hs : lex.state with
  | inNumber => exact absurd hs hint
  | inNumberFrac => exact absurd hs hfrac
  | inNumberExp => exact absurd hs hexp
  | lookupToken =>
    refine .ite (fun _ => hnone _) fun _ => ?_
    iterate 7 refine .ite (fun _ => Reaction.makes_one trivial _) fun _ => ?_
    iterate 4 refine .ite (fun _ => hnone _) fun _ => ?_
    exact .ite (fun _ => trivial) fun _ => .ite (fun _ => hnone _) fun _ => trivial
  | inString =>
    dsimp only [Reaction.ofString]
    cases checkUtf8 cfg lex b with
    | error code => trivial
    | ok a =>
      obtain ⟨lex', last⟩ := a
      cases last with
      | false => exact hchar b lex'
      | true =>
        exact .ite (fun _ => hnone _) fun _ => .ite (fun _ => Reaction.makes_one trivial _) fun _ =>
          .ite (fun _ => trivial) fun _ => hchar b lex'
  | inStringEscape =>
    dsimp only [Reaction.ofEscape]
    cases escapeByte b with
    | some e => exact hchar e _
    | none => exact .ite (fun _ => hnone _) fun _ => trivial
  | inStringUnicodeEscape =>
    dsimp only [Reaction.ofUnicodeEscape]
    cases hexDigit b with
    | none => trivial
    | some value =>
      refine .ite (fun _ => ?_) fun _ => hnone _
      exact List.forall_mem_cons.mpr ⟨trivial, List.forall_mem_singleton.mpr trivial⟩
  | inNumberSign => exact .ite (fun _ => hnone _) fun _ => trivial
  | inNumberExpSign =>
    exact .ite (fun _ => hnone _) fun _ => .ite (fun _ => hnone _) fun _ => .ite (fun _ => trivial)
      fun _ => hnone _
  | inBigNumber =>
    exact .ite (fun _ => Reaction.makes_one trivial _) fun _ => List.forall_mem_singleton.mpr trivial
  | inTrue | inFalse | inNull => exact keyword_plain _ b

end Numbers

structure Scan where
  lex : Lexer
  index : ℤ

/-- A byte that was looked at again is dispatched a second time, from `lookupToken`. -/
def scanStep (s : Scan) (b : UInt8) : List (LexerCall δ) × Except ErrorCode Scan :=
  match react cfg (recordMagic s.lex b) s.index b with
  | .consume calls lex => (calls, .ok ⟨lex, s.index + 1⟩)
  | .reject code => ([], .error code)
  | .unread calls lex =>
    match react cfg (recordMagic lex b) s.index b with
    | .consume calls' lex => (calls ++ calls', .ok ⟨lex, s.index + 1⟩)
    | .reject code => (calls, .error code)
    | .unread calls' _ => (calls ++ calls', .error .internalError)

section Steps

variable {cfg} {s : Scan} {b : UInt8} {calls calls' : List (LexerCall δ)} {lex lex' : Lexer}

lemma scanStep_consume (h : react cfg (recordMagic s.lex b) s.index b = .consume calls lex) :
    scanStep cfg s b = (calls, .ok ⟨lex, s.index + 1⟩) := by
  rw [scanStep, h]

lemma scanStep_reject {code : ErrorCode}
    (h : (react cfg (recordMagic s.lex b) s.index b : Reaction δ) = .reject code) :
    scanStep (δ := δ) cfg s b = ([], .error code) := by
  rw [scanStep, h]

lemma scanStep_unread_consume (h : react cfg (recordMagic s.lex b) s.index b = .unread calls lex)
    (h' : react cfg (recordMagic lex b) s.index b = .consume calls' lex') :
    scanStep cfg s b = (calls ++ calls', .ok ⟨lex', s.index + 1⟩) := by
  simp only [scanStep, h, h']

lemma scanStep_index {t : Scan} (h : scanStep cfg s b = (calls, .ok t)) : t.index = s.index + 1 := by
  rw [scanStep] at h
  cases hr : (react cfg (recordMagic s.lex b) s.index b : Reaction δ) with
  | consume calls' lex =>
    rw [hr] at h
    cases h
    rfl
  | reject code => simp [hr] at h
  | unread calls' lex =>
    simp only [hr] at h
    cases hr' : (react cfg (recordMagic lex b) s.index b : Reaction δ) with
    | consume calls'' lex' =>
      rw [hr'] at h
      cases h
      rfl
    | reject code => simp [hr'] at h
    | unread calls'' lex' => simp [hr'] at h

end Steps

def scanner : Transducer Scan UInt8 (LexerCall δ) ErrorCode := ⟨scanStep cfg⟩

variable {cfg} in
lemma scanner_run_index {s t : Scan} {bytes : List UInt8} {calls : List (LexerCall δ)}
    (h : (scanner cfg).run s bytes = (calls, .ok t)) : t.index = s.index + bytes.length := by
  refine (scanner cfg).run_invariant (P := fun bytes (_ : List (LexerCall δ)) t =>
    t.index = s.index + bytes.length) (by simp) (fun bytes _ u b _ t hu hstep => ?_) h
  rw [scanStep_index hstep, hu, List.length_append, List.length_singleton]
  push_cast
  ring

section Invariants

variable {cfg} {P : Lexer → Prop} (hmagic : ∀ lex b, P lex → P (recordMagic lex b))
  (hreact : ∀ lex index b, P lex → (react cfg lex index b : Reaction δ).Keeps P)

include hmagic hreact

lemma scanStep_keeps {s t : Scan} {b : UInt8} {calls : List (LexerCall δ)} (h : P s.lex)
    (hs : scanStep cfg s b = (calls, .ok t)) : P t.lex := by
  have hr := hreact _ s.index b (hmagic _ b h)
  rw [scanStep] at hs
  cases hreaction : (react cfg (recordMagic s.lex b) s.index b : Reaction δ) with
  | consume calls' lex =>
    rw [hreaction] at hr hs
    cases hs
    exact hr
  | reject code => simp [hreaction] at hs
  | unread calls' lex =>
    rw [hreaction] at hr
    have hr' := hreact _ s.index b (hmagic _ b hr)
    simp only [hreaction] at hs
    cases hreaction' : (react cfg (recordMagic lex b) s.index b : Reaction δ) with
    | consume calls'' lex' =>
      rw [hreaction'] at hr' hs
      cases hs
      exact hr'
    | reject code => simp [hreaction'] at hs
    | unread calls'' lex' => simp [hreaction'] at hs

lemma scanner_run_keeps {s t : Scan} {bytes : List UInt8} {calls : List (LexerCall δ)}
    (h : P s.lex) (hrun : (scanner cfg).run s bytes = (calls, .ok t)) : P t.lex :=
  (scanner cfg).run_invariant (P := fun _ _ t => P t.lex) h
    (fun _ _ _ _ _ _ hs hstep => scanStep_keeps hmagic hreact hs hstep) hrun

end Invariants

end Embedjson
