import Embedjson.Lexer.Chunking
import Embedjson.Lexer.Finalize
import Embedjson.Lexer.NumberFields
import Embedjson.Lexer.Validator

/-! Two builds of the lexer in step: the calls of one that succeeds are those of one that refuses
less, and fields that are not read again do not matter. -/

namespace Embedjson

open Foundations Foundations.Program

variable {δ : Type}

/-- The second build refuses nothing that the first one accepts. -/
structure Permits (cfg cfg' : Config) : Prop where
  validate : cfg'.validateUtf8 = true → cfg.validateUtf8 = true
  bignum : cfg.bignum = true → cfg'.bignum = true
  wide : 8 ≤ cfg.intBits
  bits : cfg.intBits ≤ cfg'.intBits

/-- A number that is too long for the first build may not be for the second one. -/
def Permitted (cfg cfg' : Config) (f : LexerCall δ) : Prop :=
  cfg.intBits = cfg'.intBits ∨ ∀ position v, f ≠ .tokenbnBegin position v

/-- Values for the fields that are not read in every state. -/
structure Stale where
  offset : ℕ
  unicodeCp : UInt8 × UInt8
  encoding : Encoding
  magicBytesRead : ℕ
  magic : Vector UInt8 4
  nb : ℕ
  cc : ℕ

def Lexer.vary (lex : Lexer) (v : Stale) : Lexer :=
  { lex with
    offset := v.offset
    unicodeCp := v.unicodeCp
    encoding := v.encoding
    magicBytesRead := v.magicBytesRead
    magic := v.magic
    nb := v.nb
    cc := v.cc }

/-- What is read in the state of the lexer. -/
def Live (lex : Lexer) (v : Stale) : Prop :=
  match lex.state with
  | .inTrue | .inFalse | .inNull => v.offset = lex.offset
  | .inStringUnicodeEscape => v.offset = lex.offset ∧
      (0 < lex.offset → v.unicodeCp.1 = lex.unicodeCp.1) ∧
      (2 < lex.offset → v.unicodeCp.2 = lex.unicodeCp.2)
  | _ => True

def Counters (cfg : Config) (lex : Lexer) (v : Stale) : Prop :=
  cfg.validateUtf8 = true → v.nb = lex.nb ∧ v.cc = lex.cc

def Varies (cfg : Config) (lex lex' : Lexer) : Prop :=
  ∃ v, lex' = lex.vary v ∧ Live lex v ∧ Counters cfg lex v

def Imitates {α : Type} (S : α → α → Prop) (cfg cfg' : Config)
    (x y : List (LexerCall δ) × Option α) : Prop :=
  match x.2 with
  | some a => (∀ f ∈ x.1, Permitted cfg cfg' f) → ∃ a', S a a' ∧ y = (x.1, some a')
  | none => cfg = cfg' → y = x

def FlowVaries (cfg : Config) : Flow Cursor → Flow Cursor → Prop
  | .ok d, .ok d' => d' = { d with lex := d'.lex } ∧ Varies cfg d.lex d'.lex
  | .error r, .error r' => r' = r
  | _, _ => False

section Rules

variable {α β : Type} {S : α → α → Prop} {S' : β → β → Prop} {cfg cfg' : Config}
  {x y : List (LexerCall δ) × Option α}

lemma permitted_of_eq (h : cfg = cfg') (f : LexerCall δ) : Permitted cfg cfg' f := by
  rw [h]
  exact .inl rfl

lemma Imitates.followedBy {k k' : α → List (LexerCall δ) × Option β} (h : Imitates S cfg cfg' x y)
    (hk : ∀ a a', x.2 = some a → S a a' → Imitates S' cfg cfg' (k a) (k' a')) :
    Imitates S' cfg cfg' (followedBy x k) (followedBy y k') := by
  obtain ⟨l, _ | a⟩ := x
  · intro heq
    rw [show y = (l, none) from h heq]
    rfl
  · rw [followedBy_some]
    have hy (hl : ∀ f ∈ l, Permitted cfg cfg' f) : ∃ a', S a a' ∧ y = (l, some a') := h hl
    cases hz : (k a).2 with
    | some b =>
      simp only [Imitates, List.forall_mem_append]
      rintro ⟨hl, hm⟩
      obtain ⟨a', ha, rfl⟩ := hy hl
      have hrest := hk a a' rfl ha
      simp only [Imitates, hz] at hrest
      obtain ⟨b', hb, heq⟩ := hrest hm
      exact ⟨b', hb, by rw [followedBy_some, heq]⟩
    | none =>
      simp only [Imitates]
      intro heq
      obtain ⟨a', ha, rfl⟩ := hy fun f _ => permitted_of_eq heq f
      have hrest := hk a a' rfl ha
      simp only [Imitates, hz] at hrest
      rw [followedBy_some, hrest heq, hz]

lemma Imitates.ite {p : Prop} [Decidable p] {k m k' m' : Program (LexerCall δ) α}
    (hk : p → Imitates S cfg cfg' (observe LexerCall.isError k) (observe LexerCall.isError k'))
    (hm : ¬p → Imitates S cfg cfg' (observe LexerCall.isError m) (observe LexerCall.isError m')) :
    Imitates S cfg cfg' (observe LexerCall.isError (if p then k else m))
      (observe LexerCall.isError (if p then k' else m')) := by
  by_cases h : p
  · rw [if_pos h, if_pos h]
    exact hk h
  · rw [if_neg h, if_neg h]
    exact hm h

/-- The second build may do anything where the first one reports an error. -/
lemma Imitates.reject {m : LexerProgram δ Cursor} {S : Flow Cursor → Flow Cursor → Prop}
    {code : ErrorCode} {position : Pointer} (h : cfg = cfg' → m = returnError code position) :
    Imitates S cfg cfg' (observe LexerCall.isError (returnError code position))
      (observe LexerCall.isError m) := by
  intro heq
  rw [h heq]

lemma Imitates.returnIf {S : Flow α → Flow α → Prop} {k k' : LexerProgram δ α} (f : LexerCall δ)
    (hf : f.isError = false)
    (h : Imitates S cfg cfg' (observe LexerCall.isError k) (observe LexerCall.isError k')) :
    Imitates S cfg cfg' (observe LexerCall.isError (returnIf f k))
      (observe LexerCall.isError (returnIf f k')) := by
  rw [observe_returnIf hf, observe_returnIf hf]
  generalize observe LexerCall.isError k = x at h ⊢
  generalize observe LexerCall.isError k' = y at h ⊢
  obtain ⟨l, _ | a⟩ := x
  · intro heq
    rw [show y = (l, none) from h heq]
  · intro hl
    obtain ⟨a', ha, rfl⟩ := h (List.forall_mem_cons.mp hl).2
    exact ⟨a', ha, rfl⟩

lemma Imitates.flush {S : Flow α → Flow α → Prop} {k k' : LexerProgram δ α}
    (f : Pointer → List UInt8 → LexerCall δ) (hf : ∀ p bytes, (f p bytes).isError = false)
    (chunk : List UInt8) (c : Cursor) (lex : Lexer)
    (h : Imitates S cfg cfg' (observe LexerCall.isError k) (observe LexerCall.isError k')) :
    Imitates S cfg cfg' (observe LexerCall.isError (flush f chunk c k))
      (observe LexerCall.isError (flush f chunk { c with lex := lex } k')) :=
  .ite (fun _ => h.returnIf _ (hf _ _)) fun _ => h

lemma Imitates.quiet {d : Cursor} {lex : Lexer} (v : Stale) (h : lex = d.lex.vary v)
    (hlive : Live d.lex v) (hcounters : Counters cfg' d.lex v) :
    Imitates (FlowVaries cfg') cfg cfg'
      (observe LexerCall.isError (fallThrough d : LexerProgram δ Cursor))
      (observe LexerCall.isError (fallThrough { d with lex := lex })) :=
  fun _ => ⟨.ok { d with lex := lex }, ⟨rfl, v, h, hlive, hcounters⟩, rfl⟩

end Rules

section Functions

variable {cfg cfg' : Config} {c : Cursor} {b : UInt8} {v : Stale} {chunk : List UInt8}

def Cursor.vary (c : Cursor) (v : Stale) : Cursor := { c with lex := c.lex.vary v }

def Together (cfg cfg' : Config) (m m' : LexerProgram δ Cursor) : Prop :=
  Imitates (FlowVaries cfg') cfg cfg' (observe LexerCall.isError m) (observe LexerCall.isError m')

lemma lookupToken_together (hs : c.lex.state = .lookupToken) (hc : Counters cfg' c.lex v) :
    Together cfg cfg' (lookupToken c b : LexerProgram δ Cursor) (lookupToken (c.vary v) b) := by
  have hlive : Live c.lex v := by simp only [Live, hs]
  have hquiet : Together cfg cfg' (fallThrough c : LexerProgram δ Cursor) (fallThrough (c.vary v)) :=
    .quiet v rfl hlive hc
  refine .ite (fun _ => hquiet) fun _ => ?_
  iterate 6 refine .ite (fun _ => hquiet.returnIf _ rfl) fun _ => ?_
  refine .ite (fun _ => .returnIf _ rfl (.quiet v rfl trivial hc)) fun _ => ?_
  iterate 3 refine .ite (fun _ => .quiet { v with offset := 1 } rfl rfl hc) fun _ => ?_
  refine .ite (fun _ => .quiet v rfl trivial hc) fun _ => ?_
  refine .ite (fun _ => .reject fun _ => rfl) fun _ => ?_
  exact .ite (fun _ => .quiet v rfl trivial hc) fun _ => .reject fun _ => rfl

lemma inStringEscape_together (hc : Counters cfg' c.lex v) :
    Together cfg cfg' (inStringEscape c b : LexerProgram δ Cursor) (inStringEscape (c.vary v) b) := by
  rw [inStringEscape, inStringEscape]
  cases escapeByte b with
  | some e => exact .returnIf _ rfl (.quiet v rfl trivial hc)
  | none =>
    exact .ite (fun _ => .quiet { v with offset := 0 } rfl
      ⟨rfl, fun h => absurd h (Nat.not_lt_zero 0), fun h => absurd h (Nat.not_lt_zero 2)⟩ hc)
        fun _ => .reject fun _ => rfl

lemma inStringUnicodeEscape_together (hs : c.lex.state = .inStringUnicodeEscape)
    (hlive : Live c.lex v) (hc : Counters cfg' c.lex v) :
    Together cfg cfg' (inStringUnicodeEscape c b : LexerProgram δ Cursor)
      (inStringUnicodeEscape (c.vary v) b) := by
  obtain ⟨⟨state, offset, ⟨x, y⟩, e₀, r₀, minus, eminus, enot, m₀, int, frac, power, exp, nb₀, cc₀⟩,
    data, begin_⟩ := c
  obtain ⟨o, ⟨x', y'⟩, e, r, m, nb, cc⟩ := v
  obtain rfl : state = .inStringUnicodeEscape := hs
  obtain ⟨ho, hx, hy⟩ := hlive
  dsimp only at ho hx hy
  subst ho
  rw [inStringUnicodeEscape, inStringUnicodeEscape]
  cases hexDigit b with
  | none => exact .reject fun _ => rfl
  | some value =>
    match o with
    | 0 =>
      exact .quiet ⟨1, (value <<< 4, y'), e, r, m, nb, cc⟩ rfl
        ⟨rfl, by simp [pushHexDigit], by simp [pushHexDigit]⟩ hc
    | 1 =>
      obtain rfl := hx (by omega)
      exact .quiet ⟨2, (x' ||| value, y'), e, r, m, nb, cc⟩ rfl
        ⟨rfl, by simp [pushHexDigit], by simp [pushHexDigit]⟩ hc
    | 2 =>
      obtain rfl := hx (by omega)
      exact .quiet ⟨3, (x', value <<< 4), e, r, m, nb, cc⟩ rfl
        ⟨rfl, by simp [pushHexDigit], by simp [pushHexDigit]⟩ hc
    | 3 =>
      obtain rfl := hx (by omega)
      obtain rfl := hy (by omega)
      exact .returnIf _ rfl (.quiet ⟨4, (x', y' ||| value), e, r, m, nb, cc⟩ rfl trivial hc)
    | o + 4 =>
      obtain rfl := hx (by omega)
      obtain rfl := hy (by omega)
      exact .quiet ⟨o + 5, (x', y'), e, r, m, nb, cc⟩ rfl
        ⟨rfl, by simp [pushHexDigit], by simp [pushHexDigit]⟩ hc

lemma inKeyword_together {keyword : String} {code : ErrorCode} {tok : Tok} {last : ℕ}
    (ho : v.offset = c.lex.offset) (hlive : ∀ v', v'.offset = c.lex.offset + 1 →
      Live { c.lex with offset := c.lex.offset + 1 } v') (hc : Counters cfg' c.lex v) :
    Together cfg cfg' (inKeyword keyword code tok last c b : LexerProgram δ Cursor)
      (inKeyword keyword code tok last (c.vary v) b) := by
  obtain ⟨o, cp, e, r, m, nb, cc⟩ := v
  obtain rfl : o = c.lex.offset := ho
  refine .ite (fun _ => .reject fun _ => rfl) fun _ => .ite (fun _ => .returnIf _ rfl ?_) fun _ => ?_
  · exact .quiet ⟨c.lex.offset + 1, cp, e, r, m, nb, cc⟩ rfl trivial hc
  · exact .quiet ⟨c.lex.offset + 1, cp, e, r, m, nb, cc⟩ rfl (hlive _ rfl) hc

lemma inNumberExpSign_together (hc : Counters cfg' c.lex v) :
    Together cfg cfg' (inNumberExpSign c b : LexerProgram δ Cursor)
      (inNumberExpSign (c.vary v) b) := by
  refine .ite (fun _ => .quiet v rfl trivial hc) fun _ => .ite (fun _ => .quiet v rfl trivial hc)
    fun _ => .ite (fun _ => .reject fun _ => rfl) fun _ => .quiet v rfl trivial hc

lemma inBigNumber_together (hs : c.lex.state = .inBigNumber) (hc : Counters cfg' c.lex v) :
    Together cfg cfg' (inBigNumber chunk c b : LexerProgram δ Cursor)
      (inBigNumber chunk (c.vary v) b) := by
  have hlive : Live c.lex v := by simp only [Live, hs]
  exact .ite (fun _ => .quiet v rfl hlive hc) fun _ => .flush _ (fun _ _ => rfl) _ _ _
    (.returnIf _ rfl (.quiet v rfl trivial hc))

lemma checkUtf8_vary (hv : cfg.validateUtf8 = true) (hv' : cfg'.validateUtf8 = true) (lex : Lexer)
    (hnb : v.nb = lex.nb) (hcc : v.cc = lex.cc) (b : UInt8) :
    checkUtf8 cfg' (lex.vary v) b = (checkUtf8 cfg lex b).map fun a =>
      (a.1.vary { v with nb := a.1.nb, cc := a.1.cc }, a.2) := by
  rw [checkUtf8_frame hv', checkUtf8_frame hv, show (lex.vary v).nb = lex.nb from hnb,
    show (lex.vary v).cc = lex.cc from hcc]
  cases checkUtf8 .default (counting lex.nb lex.cc) b <;> rfl

lemma afterCheck_together {lex : Lexer} {w : Stale} {p p' : Prop} [Decidable p] [Decidable p']
    (hs : lex.state = .inString) (hc : Counters cfg' lex w) (hp : p' → p) (heq : cfg = cfg' → p → p') :
    Together cfg cfg'
      (if b = '\\'.toUInt8 then
        flush .tokenc chunk c (fallThrough { c with lex := { lex with state := .inStringEscape } })
      else if b = '\"'.toUInt8 then
        flush .tokenc chunk c (returnIf (.tokencEnd c.position)
          (fallThrough { c with lex := { lex with state := .lookupToken } }))
      else if p then returnError .badUtf8 c.position
      else fallThrough { c with lex := lex } : LexerProgram δ Cursor)
      (if b = '\\'.toUInt8 then
        flush .tokenc chunk (c.vary v)
          (fallThrough { c with lex := { lex.vary w with state := .inStringEscape } })
      else if b = '\"'.toUInt8 then
        flush .tokenc chunk (c.vary v) (returnIf (.tokencEnd c.position)
          (fallThrough { c with lex := { lex.vary w with state := .lookupToken } }))
      else if p' then returnError .badUtf8 c.position
      else fallThrough { c with lex := lex.vary w }) := by
  refine .ite (fun _ => ?_) fun _ => .ite (fun _ => ?_) fun _ => ?_
  · exact .flush _ (fun _ _ => rfl) _ _ _ (.quiet w rfl trivial hc)
  · exact .flush _ (fun _ _ => rfl) _ _ _ (.returnIf _ rfl (.quiet w rfl trivial hc))
  · by_cases h : p
    · rw [if_pos h]
      exact .reject fun h' => if_pos (heq h' h)
    · rw [if_neg h, if_neg (mt hp h)]
      have hlive : Live lex w := by simp only [Live, hs]
      exact .quiet w rfl hlive hc

lemma inString_together (hpermits : Permits cfg cfg') (hs : c.lex.state = .inString)
    (hc : Counters cfg' c.lex v) :
    Together cfg cfg' (inString cfg chunk c b : LexerProgram δ Cursor)
      (inString cfg' chunk (c.vary v) b) := by
  rw [inString, inString]
  by_cases hv' : cfg'.validateUtf8 = true
  · obtain ⟨hnb, hcc⟩ := hc hv'
    rw [show (c.vary v).lex = c.lex.vary v from rfl,
      checkUtf8_vary (hpermits.validate hv') hv' c.lex hnb hcc b]
    cases hcheck : checkUtf8 cfg c.lex b with
    | error code => exact .reject fun _ => rfl
    | ok a =>
      obtain ⟨lex, last⟩ := a
      obtain ⟨n, m, rfl⟩ := checkUtf8_counters hcheck
      have hlive : Live { c.lex with nb := n, cc := m } { v with nb := n, cc := m } := by
        simp only [Live, hs]
      cases last with
      | false => exact .quiet { v with nb := n, cc := m } rfl hlive fun _ => ⟨rfl, rfl⟩
      | true =>
        refine afterCheck_together (w := { v with nb := n, cc := m }) hs (fun _ => ⟨rfl, rfl⟩) ?_ ?_
        · exact fun h => ⟨hpermits.validate hv', h.2⟩
        · exact fun _ h => ⟨hv', h.2⟩
  · have hright : checkUtf8 cfg' (c.vary v).lex b = .ok (c.lex.vary v, true) := if_neg hv'
    rw [hright]
    have hsame (h : cfg = cfg') : checkUtf8 cfg c.lex b = .ok (c.lex, true) := if_neg (h ▸ hv')
    cases hcheck : checkUtf8 cfg c.lex b with
    | error code =>
      refine .reject fun h => ?_
      rw [hsame h] at hcheck
      cases hcheck
    | ok a =>
      obtain ⟨lex, last⟩ := a
      have hcounters (l : Lexer) : Counters cfg' l v := fun h => absurd h hv'
      cases last with
      | false =>
        obtain ⟨hslash, hquote⟩ := checkUtf8_false hcheck
        obtain ⟨n, m, rfl⟩ := checkUtf8_counters hcheck
        have hlive : Live { c.lex with nb := n, cc := m } v := by simp only [Live, hs]
        dsimp only
        rw [if_neg hslash, if_neg hquote, if_neg fun h => hv' h.1]
        exact .quiet v rfl hlive (hcounters _)
      | true =>
        obtain ⟨n, m, rfl⟩ := checkUtf8_counters hcheck
        refine afterCheck_together (w := v) hs (hcounters _) (fun h => absurd h.1 hv') ?_
        exact fun h h' => absurd (h ▸ h'.1) hv'

section Numbers

variable (hpermits : Permits cfg cfg')

include hpermits

lemma Permits.wide' : 8 ≤ cfg'.intBits := hpermits.wide.trans hpermits.bits

lemma intMax_le : cfg.intMax ≤ cfg'.intMax := by
  have hmax := two_pow_intBits hpermits.wide
  have hmax' := two_pow_intBits hpermits.wide'
  have hle : (2 : ℤ) ^ cfg.intBits ≤ 2 ^ cfg'.intBits :=
    pow_le_pow_right₀ (by decide) hpermits.bits
  omega

lemma pushIntDigit_wider {lex : Lexer} (hb : isDigit b = true) (h : 0 ≤ lex.intValue)
    (hguard : lex.intValue ≤ cfg.intMax / 10 - digit b) :
    pushIntDigit cfg' (lex.vary v) b = (pushIntDigit cfg lex b).vary v := by
  have hle := intMax_le hpermits
  have hpush := toInt_push hpermits.wide hb h hguard
  have hpush' := toInt_push hpermits.wide' hb h (by omega)
  simp only [pushIntDigit, Lexer.vary, hpush, hpush']

lemma signedInt_wider {lex : Lexer} (h : InRange cfg lex) :
    signedInt cfg' (lex.vary v) = signedInt cfg lex := by
  have hle := intMax_le hpermits
  obtain ⟨h₁, h₂⟩ := h
  have hneg := toInt_of_range (x := 0 - lex.intValue) hpermits.wide (by omega) (by omega)
  have hneg' := toInt_of_range (x := 0 - lex.intValue) hpermits.wide' (by omega) (by omega)
  rw [signedInt, signedInt, hneg]
  exact congrArg (ite _ · _) hneg'

lemma inNumberSign_together (hs : c.lex.intValue = 0) (hc : Counters cfg' c.lex v) :
    Together cfg cfg' (inNumberSign cfg c b : LexerProgram δ Cursor)
      (inNumberSign cfg' (c.vary v) b) := by
  have hlarge := intMax_large hpermits.wide
  refine .ite (fun hb => .quiet v ?_ trivial hc) fun _ => .reject fun _ => rfl
  have hdigit := digit_range hb
  rw [show (c.vary v).lex = c.lex.vary v from rfl,
    pushIntDigit_wider hpermits hb (by omega) (by omega)]
  rfl

lemma inNumber_together (hs : c.lex.state = .inNumber) (hrange : InRange cfg c.lex)
    (hc : Counters cfg' c.lex v) :
    Together cfg cfg' (inNumber cfg c b : LexerProgram δ Cursor) (inNumber cfg' (c.vary v) b) := by
  refine .ite (fun hb => .ite (fun _ => .reject fun _ => rfl) fun _ => ?_) fun _ => .ite
    (fun _ => .quiet v rfl trivial hc) fun _ => .ite (fun _ => .quiet v rfl trivial hc) fun _ => ?_
  · rw [toInt_guard hpermits.wide hb, toInt_guard hpermits.wide' hb]
    by_cases hguard : c.lex.intValue > cfg.intMax / 10 - digit b
    · rw [if_pos hguard]
      by_cases hbits : cfg.intBits = cfg'.intBits
      · have hmax : cfg'.intMax = cfg.intMax := by rw [Config.intMax, Config.intMax, hbits]
        rw [hmax, if_pos (show (c.vary v).lex.intValue > _ from hguard)]
        by_cases hbig : cfg.bignum = true
        · rw [if_pos hbig, if_pos (hpermits.bignum hbig)]
          exact .returnIf _ rfl (.quiet v rfl trivial hc)
        · rw [if_neg hbig]
          exact .reject fun h => if_neg (h ▸ hbig)
      · by_cases hbig : cfg.bignum = true
        · rw [if_pos hbig]
          rw [observe_returnIf rfl]
          intro hall
          exact absurd rfl ((hall _ (List.mem_cons_self ..)).resolve_left hbits _ _)
        · rw [if_neg hbig]
          exact .reject fun h => absurd (congrArg Config.intBits h) hbits
    · have hle := intMax_le hpermits
      rw [if_neg hguard, if_neg (show ¬(c.vary v).lex.intValue > _ from fun h =>
        hguard (lt_of_le_of_lt (by omega) h))]
      have hlive : Live (pushIntDigit cfg c.lex b) v := by simp only [Live, pushIntDigit, hs]
      exact .quiet v (pushIntDigit_wider hpermits hb hrange.1 (by omega)) hlive hc
  · dsimp only
    rw [show signedInt cfg' (c.vary v).lex = _ from signedInt_wider hpermits hrange]
    exact .returnIf _ rfl (.quiet v rfl trivial hc)

end Numbers

variable [DoubleArith δ]

lemma inNumberFrac_together (hs : c.lex.state = .inNumberFrac) (hc : Counters cfg' c.lex v) :
    Together cfg cfg' (inNumberFrac c b : LexerProgram δ Cursor) (inNumberFrac (c.vary v) b) := by
  have hlive : Live (pushFracDigit c.lex b) v := by simp only [Live, pushFracDigit, hs]
  refine .ite (fun _ => .quiet v rfl hlive hc) fun _ => .ite (fun _ => .ite
    (fun _ => .reject fun _ => rfl) fun _ => .quiet v rfl trivial hc) fun _ => .ite
    (fun _ => .reject fun _ => rfl) fun _ => .returnIf _ rfl (.quiet v rfl trivial hc)

lemma inNumberExp_together (hs : c.lex.state = .inNumberExp) (hc : Counters cfg' c.lex v) :
    Together cfg cfg' (inNumberExp c b : LexerProgram δ Cursor) (inNumberExp (c.vary v) b) := by
  have hlive : Live (pushExpDigit c.lex b) v := by simp only [Live, pushExpDigit, hs]
  refine .ite (fun _ => .ite (fun _ => .reject fun _ => rfl) fun _ => .quiet v rfl hlive hc)
    fun _ => .ite (fun _ => .reject fun _ => rfl) fun _ => .returnIf _ rfl (.quiet v rfl trivial hc)

variable (chunk b) in
lemma dispatch_together (hpermits : Permits cfg cfg') (htidy : Tidy cfg c.lex) (hlive : Live c.lex v)
    (hc : Counters cfg' c.lex v) :
    Together cfg cfg' (dispatch cfg chunk c b : LexerProgram δ Cursor)
      (dispatch cfg' chunk (c.vary v) b) := by
  rw [dispatch, dispatch, show (c.vary v).lex.state = c.lex.state from rfl]
  cases hs : c.lex.state <;> simp only [Tidy, Live, hs] at htidy hlive
  case lookupToken => exact lookupToken_together hs hc
  case inString => exact inString_together hpermits hs hc
  case inStringEscape => exact inStringEscape_together hc
  case inStringUnicodeEscape =>
    have hlive : Live c.lex v := by simpa only [Live, hs] using hlive
    exact inStringUnicodeEscape_together hs hlive hc
  case inNumberSign => exact inNumberSign_together hpermits htidy.1 hc
  case inNumber => exact inNumber_together hpermits hs htidy.1 hc
  case inNumberFrac => exact inNumberFrac_together hs hc
  case inNumberExpSign => exact inNumberExpSign_together hc
  case inNumberExp => exact inNumberExp_together hs hc
  case inBigNumber => exact inBigNumber_together hs hc
  case inTrue | inFalse | inNull =>
    exact inKeyword_together hlive (fun v' hv' => by simpa only [Live, hs] using hv') hc

end Functions

section Runs

variable [DoubleArith δ] {cfg cfg' : Config} {chunk : List UInt8}

lemma varies_recordMagic {lex lex' : Lexer} (h : Varies cfg lex lex') (b : UInt8) :
    Varies cfg (recordMagic lex b) (recordMagic lex' b) := by
  obtain ⟨v, rfl, hlive, hc⟩ := h
  obtain ⟨_, _, _, heq⟩ := recordMagic_eq lex b
  obtain ⟨m, r, e, heq'⟩ := recordMagic_eq (lex.vary v) b
  rw [heq, heq']
  exact ⟨{ v with magic := m, magicBytesRead := r, encoding := e }, rfl, hlive, hc⟩

lemma dispatch_lex {P : Lexer → Prop} {c d : Cursor} {b : UInt8} {calls : List (LexerCall δ)}
    (ht : Tied c) (hb : deref chunk c.data = some b)
    (hP : (react cfg (recordMagic c.lex b) (0 + c.data) b : Reaction δ).Keeps P)
    (h : observe LexerCall.isError (dispatch cfg chunk { c with lex := recordMagic c.lex b } b) =
      (calls, some (.ok d))) : P d.lex ∧ Tied d.next := by
  have hsim : Simulates 0 chunk { c with lex := recordMagic c.lex b } _
      (react cfg (recordMagic c.lex b) (0 + c.data) b : Reaction δ) := dispatch_recorded ht hb
  rw [h] at hsim
  cases hr : (react cfg (recordMagic c.lex b) (0 + c.data) b : Reaction δ) with
  | consume calls' lex =>
    rw [hr] at hsim hP
    obtain ⟨l, d', heq, rfl, -, ht', -⟩ := hsim
    cases heq
    exact ⟨hP, ht'⟩
  | unread calls' lex =>
    rw [hr] at hsim hP
    obtain ⟨l, d', heq, rfl, -, hs, -⟩ := hsim
    cases heq
    refine ⟨hP, tied_of_plain ?_⟩
    rw [show d.next.lex.state = d.lex.state from rfl, hs]
    decide
  | reject code =>
    rw [hr] at hsim
    cases hsim

variable (hpermits : Permits cfg cfg')

include hpermits

variable (chunk) in
lemma loop_together (fuel : ℕ) {c : Cursor} {lex : Lexer} (hv : Varies cfg' c.lex lex)
    (htidy : Tidy cfg c.lex) (ht : Tied c) :
    Imitates (Option.Rel (FlowVaries cfg')) cfg cfg'
      (observe LexerCall.isError (loop cfg chunk fuel c : Program (LexerCall δ) _))
      (observe LexerCall.isError (loop cfg' chunk fuel { c with lex := lex })) := by
  induction fuel generalizing c lex with
  | zero => exact fun _ => ⟨none, .none, rfl⟩
  | succ fuel ih =>
    rw [loop, loop]
    by_cases hend : c.data = chunk.length
    · rw [if_pos hend, if_pos hend]
      have hflow : FlowVaries cfg' (.ok c) (.ok { c with lex := lex }) := ⟨rfl, hv⟩
      exact fun _ => ⟨_, .some hflow, rfl⟩
    · rw [if_neg hend, if_neg hend]
      cases hb : deref chunk c.data with
      | none => exact fun _ => ⟨none, .none, rfl⟩
      | some b =>
        dsimp only
        rw [observe_bind, observe_bind]
        obtain ⟨v, hlex, hlive, hcounters⟩ := varies_recordMagic hv b
        have hfirst := dispatch_together (δ := δ) (c := { c with lex := recordMagic c.lex b })
          b chunk hpermits (tidy_recordMagic htidy b) hlive hcounters
        rw [hlex]
        refine hfirst.followedBy fun a a' ha hflow => ?_
        cases a with
        | error r =>
          cases a' with
          | error r' =>
            obtain rfl : r' = r := hflow
            exact fun _ => ⟨_, .some (show FlowVaries cfg' (.error _) (.error _) from rfl), rfl⟩
          | ok d' => exact hflow.elim
        | ok d =>
          cases a' with
          | error r' => exact hflow.elim
          | ok d' =>
            obtain ⟨hd, hvaries⟩ := hflow
            obtain ⟨lex', data, begin_⟩ := d'
            obtain ⟨rfl, rfl⟩ : data = d.data ∧ begin_ = d.stringChunkBegin := by simpa using hd
            obtain ⟨hnext, ht'⟩ := dispatch_lex ht hb
              (react_tidy (δ := δ) hpermits.wide (tidy_recordMagic htidy b) _ b) (Prod.ext rfl ha)
            exact ih (c := d.next) hvaries hnext ht'

omit [DoubleArith δ] hpermits in
lemma flushEnd_together {c : Cursor} {v : Stale} :
    Imitates (fun a a' => ∃ lex, a = .ok lex ∧ a' = .ok (lex.vary v) ∧ lex = c.lex) cfg cfg'
      (observe LexerCall.isError (flushEnd chunk c : LexerProgram δ Lexer))
      (observe LexerCall.isError (flushEnd chunk (c.vary v))) := by
  have hdone : Imitates (fun a a' => ∃ lex, a = .ok lex ∧ a' = .ok (lex.vary v) ∧ lex = c.lex) cfg cfg'
      (observe LexerCall.isError (fallThrough c.lex : LexerProgram δ Lexer))
      (observe LexerCall.isError (fallThrough (c.lex.vary v))) :=
    fun _ => ⟨_, ⟨_, rfl, rfl, rfl⟩, rfl⟩
  rw [flushEnd, flushEnd, show (c.vary v).lex.state = c.lex.state from rfl]
  cases c.lex.state with
  | inString | inBigNumber => exact .flush _ (fun _ _ => rfl) _ _ _ hdone
  | _ => exact hdone

theorem embedjsonLexerPush_together {lexer lexer' : Lexer} (hv : Varies cfg' lexer lexer')
    (htidy : Tidy cfg lexer) (chunk : List UInt8) :
    Imitates (fun a a' => a'.1 = a.1 ∧ Varies cfg' a.2 a'.2 ∧ Tidy cfg a.2) cfg cfg'
      (observe LexerCall.isError (embedjsonLexerPush (δ := δ) cfg chunk lexer))
      (observe LexerCall.isError (embedjsonLexerPush cfg' chunk lexer')) := by
  have hstart : start lexer' = { start lexer with lex := lexer' } := by
    obtain ⟨v, rfl, -⟩ := hv
    rfl
  have hloop := loop_together (δ := δ) (c := start lexer) chunk hpermits (2 * chunk.length + 1)
    hv htidy (tied_start lexer)
  rw [embedjsonLexerPush_eq, embedjsonLexerPush_eq, observe_bind, observe_bind, hstart]
  refine hloop.followedBy fun a a' ha hflow => ?_
  cases hflow with
  | none => exact fun _ => ⟨(0, lexer'), ⟨rfl, hv, htidy⟩, rfl⟩
  | @some a a' hflow =>
    cases a with
    | error r =>
      cases a' with
      | error r' =>
        obtain rfl : r' = r := hflow
        exact fun _ => ⟨(r', lexer'), ⟨rfl, hv, htidy⟩, rfl⟩
      | ok d' => exact hflow.elim
    | ok d =>
      cases a' with
      | error r' => exact hflow.elim
      | ok d' =>
        obtain ⟨hd, v, hlex, hlive, hcounters⟩ := hflow
        have hd' : d' = d.vary v := by rw [hd, hlex, Cursor.vary]
        subst hd'
        have htidy' : Tidy cfg d.lex := by
          have hdel := start_delivers (δ := δ) cfg lexer 0 chunk
          rcases hrun : (scanner (δ := δ) cfg).run ⟨lexer, 0⟩ chunk with ⟨calls, code | s⟩
          · rw [hrun] at hdel
            cases ha.symm.trans hdel.2.1
          · rw [hrun] at hdel
            obtain ⟨-, d', hd', rfl, -⟩ := hdel
            cases ha.symm.trans hd'
            exact scanner_run_tidy hpermits.wide htidy hrun
        rw [afterLoop, afterLoop, observe_bind, observe_bind]
        refine flushEnd_together.followedBy fun a a' _ hflush => ?_
        obtain ⟨lex, rfl, rfl, rfl⟩ := hflush
        exact fun _ => ⟨(0, d.lex.vary v), ⟨rfl, ⟨v, rfl, hlive, hcounters⟩, htidy'⟩, rfl⟩

theorem lexerPushAll_together {lexer lexer' : Lexer} (hv : Varies cfg' lexer lexer')
    (htidy : Tidy cfg lexer) (chunks : List (List UInt8)) :
    Imitates (fun a a' => a'.1 = a.1 ∧ Varies cfg' a.2 a'.2 ∧ Tidy cfg a.2) cfg cfg'
      (observe LexerCall.isError (lexerPushAll (δ := δ) cfg lexer chunks))
      (observe LexerCall.isError (lexerPushAll cfg' lexer' chunks)) := by
  induction chunks generalizing lexer lexer' with
  | nil => exact fun _ => ⟨(0, lexer'), ⟨rfl, hv, htidy⟩, rfl⟩
  | cons chunk chunks ih =>
    rw [lexerPushAll, lexerPushAll, observe_bind, observe_bind]
    refine (embedjsonLexerPush_together hpermits hv htidy chunk).followedBy fun a a' _ ha => ?_
    obtain ⟨r, lexer⟩ := a
    obtain ⟨r', lexer'⟩ := a'
    obtain ⟨rfl, hv, htidy⟩ := ha
    exact .ite (fun _ _ => ⟨(r', lexer'), ⟨rfl, hv, htidy⟩, rfl⟩) fun _ => ih hv htidy

lemma embedjsonLexerFinalize_together {lexer lexer' : Lexer} (hv : Varies cfg' lexer lexer')
    (htidy : Tidy cfg lexer) :
    embedjsonLexerFinalize (δ := δ) cfg' lexer' = embedjsonLexerFinalize cfg lexer := by
  obtain ⟨v, rfl, -⟩ := hv
  rw [embedjsonLexerFinalize, embedjsonLexerFinalize, show (lexer.vary v).state = lexer.state from rfl]
  cases hs : lexer.state with
  | inNumber =>
    simp only [Tidy, hs] at htidy
    dsimp only
    rw [signedInt_wider hpermits htidy.1]
  | _ => rfl

end Runs

end Embedjson
