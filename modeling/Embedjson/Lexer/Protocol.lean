import Embedjson.Lexer.Chunking
import Embedjson.Lexer.Finalize

/-! The groups of the calls, the bytes that they carry and the parts of the chunk that they point to,
as an invariant of the push loop. -/

namespace Embedjson

open Foundations Foundations.Program

variable {δ : Type}

/-- What a call may belong to: nothing, a string that has begun, or a big number that has begun. -/
inductive CallGroup where
  | outside
  | string
  | bignum
  deriving DecidableEq, Repr

def CallGroup.next : CallGroup → LexerCall δ → Option CallGroup
  | .outside, .token _ _ | .outside, .tokeni _ _ | .outside, .tokenf _ _ => some .outside
  | .outside, .tokencBegin _ => some .string
  | .string, .tokenc _ _ => some .string
  | .string, .tokencEnd _ => some .outside
  | .outside, .tokenbnBegin _ _ => some .bignum
  | .bignum, .tokenbn _ _ => some .bignum
  | .bignum, .tokenbnEnd _ => some .outside
  | g, .errorEx _ _ => some g
  | _, _ => none

def Lexer.group (lex : Lexer) : CallGroup :=
  match lex.state with
  | .inString | .inStringEscape | .inStringUnicodeEscape => .string
  | .inBigNumber => .bignum
  | _ => .outside

def isBignumByte (b : UInt8) : Bool :=
  isDigit b || b = 'e'.toUInt8 || b = 'E'.toUInt8 || b = '-'.toUInt8 || b = '.'.toUInt8

/-- A chunk holds at least one byte, and in a big number only bytes of a number. -/
def LexerCall.Sound : LexerCall δ → Prop
  | .tokenc _ bytes => bytes ≠ []
  | .tokenbn _ bytes => bytes ≠ [] ∧ ∀ b ∈ bytes, isBignumByte b = true
  | _ => True

/-- The pointer and the bytes of a raw chunk. A decoded escape lies in a buffer of its own. -/
def LexerCall.raw : LexerCall δ → Option (Pointer × List UInt8)
  | .tokenc .scratch _ => none
  | .tokenc data bytes | .tokenbn data bytes => some (data, bytes)
  | _ => none

/-- The raw chunks are parts of the chunk, one behind the other between two positions. -/
def Placed (chunk : List UInt8) : ℤ → ℤ → List (LexerCall δ) → Prop
  | low, high, [] => low ≤ high
  | low, high, f :: calls =>
    match f.raw with
    | none => Placed chunk low high calls
    | some (data, bytes) => ∃ i, data = .buffer i ∧ low ≤ i ∧
        bytes = (chunk.drop i.toNat).take bytes.length ∧ Placed chunk (i + bytes.length) high calls

section Places

variable {chunk : List UInt8} {low mid high : ℤ} {f : LexerCall δ} {calls l m : List (LexerCall δ)}

lemma placed_cons_plain (hf : f.raw = none) :
    Placed chunk low high (f :: calls) ↔ Placed chunk low high calls := by
  rw [Placed, hf]

lemma placed_cons_raw {data : Pointer} {bytes : List UInt8} (hf : f.raw = some (data, bytes)) :
    Placed chunk low high (f :: calls) ↔ ∃ i, data = .buffer i ∧ low ≤ i ∧
      bytes = (chunk.drop i.toNat).take bytes.length ∧
      Placed chunk (i + bytes.length) high calls := by
  rw [Placed, hf]

lemma Placed.le (h : Placed chunk low high calls) : low ≤ high := by
  induction calls generalizing low with
  | nil => exact h
  | cons f calls ih =>
    cases hf : f.raw with
    | none => exact ih ((placed_cons_plain hf).mp h)
    | some a =>
      obtain ⟨i, -, hi, -, hcalls⟩ := (placed_cons_raw hf).mp h
      have hrest := ih hcalls
      omega

lemma Placed.mono {low' : ℤ} (h : Placed chunk low high calls) (hlow : low' ≤ low) :
    Placed chunk low' high calls := by
  induction calls generalizing low low' with
  | nil => exact hlow.trans h
  | cons f calls ih =>
    cases hf : f.raw with
    | none => exact (placed_cons_plain hf).mpr (ih ((placed_cons_plain hf).mp h) hlow)
    | some a =>
      obtain ⟨i, hdata, hi, hbytes, hcalls⟩ := (placed_cons_raw hf).mp h
      exact (placed_cons_raw hf).mpr ⟨i, hdata, hlow.trans hi, hbytes, hcalls⟩

lemma Placed.append (hl : Placed chunk low mid l) (hm : Placed chunk mid high m) :
    Placed chunk low high (l ++ m) := by
  induction l generalizing low with
  | nil => exact hm.mono hl
  | cons f l ih =>
    rw [List.cons_append]
    cases hf : f.raw with
    | none => exact (placed_cons_plain hf).mpr (ih ((placed_cons_plain hf).mp hl))
    | some a =>
      obtain ⟨i, hdata, hi, hbytes, hcalls⟩ := (placed_cons_raw hf).mp hl
      exact (placed_cons_raw hf).mpr ⟨i, hdata, hi, hbytes, ih hcalls⟩

end Places

def Emits {α : Type} (chunk : List UInt8) (Q : ℤ → CallGroup → α → Prop) (low : ℤ) (g : CallGroup)
    (x : List (LexerCall δ) × Option α) : Prop :=
  ∃ high g', x.1.foldlM CallGroup.next g = some g' ∧ Placed chunk low high x.1 ∧
    (∀ f ∈ x.1, f.Sound) ∧ ∀ a, x.2 = some a → Q high g' a

/-- The pointer `string_chunk_begin` lies behind everything emitted wherever it is read. -/
structure Anchored (chunk : List UInt8) (low : ℤ) (c : Cursor) : Prop where
  low_le : low ≤ c.data
  begins : ¬Plain c.lex.state → ∃ i, c.stringChunkBegin = .buffer i ∧ low ≤ i ∧ i ≤ c.data
  bytes : c.lex.state = .inBigNumber →
    ∀ b ∈ range chunk c.stringChunkBegin c.data, isBignumByte b = true

def Lands (chunk : List UInt8) (high : ℤ) (g : CallGroup) : Flow Cursor → Prop
  | .ok d => g = d.lex.group ∧ Anchored chunk high d.next
  | .error _ => True

section Rules

variable {α β : Type} {chunk : List UInt8} {Q : ℤ → CallGroup → α → Prop}
  {Q' : ℤ → CallGroup → β → Prop} {low : ℤ} {g g' : CallGroup} {c d : Cursor}

lemma Emits.followedBy {x : List (LexerCall δ) × Option α} {k : α → List (LexerCall δ) × Option β}
    (hx : Emits chunk Q low g x)
    (hk : ∀ high g' a, low ≤ high → x.2 = some a → Q high g' a → Emits chunk Q' high g' (k a)) :
    Emits chunk Q' low g (followedBy x k) := by
  obtain ⟨l, _ | a⟩ := x
  · obtain ⟨high, g', hfold, hplaced, hsound, -⟩ := hx
    exact ⟨high, g', hfold, hplaced, hsound, nofun⟩
  · obtain ⟨high, g', hfold, hplaced, hsound, hQ⟩ := hx
    obtain ⟨high', g'', hfold', hplaced', hsound', hQ'⟩ := hk high g' a hplaced.le rfl (hQ a rfl)
    rw [followedBy_some]
    refine ⟨high', g'', ?_, hplaced.append hplaced', ?_, hQ'⟩
    · rw [List.foldlM_append, show l.foldlM CallGroup.next g = _ from hfold]
      exact hfold'
    · simpa [or_imp, forall_and] using ⟨hsound, hsound'⟩

lemma emits_done {a : α} (h : Q low g a) :
    Emits chunk Q low g (([], some a) : List (LexerCall δ) × Option α) := by
  refine ⟨low, g, rfl, le_rfl, by simp, ?_⟩
  rintro _ ⟨⟩
  exact h

variable {Q : ℤ → CallGroup → Flow α → Prop} {k m : LexerProgram δ α}

lemma emits_returnError {code : ErrorCode} {position : Pointer} :
    Emits chunk Q low g (observe LexerCall.isError (returnError code position : LexerProgram δ α)) :=
  ⟨low, g, by cases g <;> rfl, le_rfl, by simp [observe_returnError, LexerCall.Sound], nofun⟩

lemma Emits.ite {p : Prop} [Decidable p] (hk : p → Emits chunk Q low g (observe LexerCall.isError k))
    (hm : ¬p → Emits chunk Q low g (observe LexerCall.isError m)) :
    Emits chunk Q low g (observe LexerCall.isError (if p then k else m)) := by
  by_cases h : p
  · rw [if_pos h]
    exact hk h
  · rw [if_neg h]
    exact hm h

lemma Emits.returnIf {f : LexerCall δ} (hf : f.isError = false) (hraw : f.raw = none) (hs : f.Sound)
    (hg : g.next f = some g') (h : Emits chunk Q low g' (observe LexerCall.isError k)) :
    Emits chunk Q low g (observe LexerCall.isError (Embedjson.returnIf f k)) := by
  obtain ⟨high, g'', hfold, hplaced, hsound, hQ⟩ := h
  rw [observe_returnIf hf]
  refine ⟨high, g'', ?_, (placed_cons_plain hraw).mpr hplaced, List.forall_mem_cons.mpr ⟨hs, hsound⟩, hQ⟩
  rw [List.foldlM_cons, hg]
  exact hfold

lemma Emits.flush {f : Pointer → List UInt8 → LexerCall δ} {i : ℤ}
    (hbegin : c.stringChunkBegin = .buffer i) (h₀ : 0 ≤ low) (hi : low ≤ i) (hle : i ≤ c.data)
    (hlen : c.data ≤ chunk.length) (hf : ∀ p bytes, (f p bytes).isError = false)
    (hraw : ∀ i bytes, (f (.buffer i) bytes).raw = some (.buffer i, bytes))
    (hs : range chunk (.buffer i) c.data ≠ [] → (f (.buffer i) (range chunk (.buffer i) c.data)).Sound)
    (hg : ∀ p bytes, g.next (f p bytes) = some g)
    (h : Emits chunk Q c.data g (observe LexerCall.isError k)) :
    Emits chunk Q low g (observe LexerCall.isError (Embedjson.flush f chunk c k)) := by
  obtain ⟨high, g', hfold, hplaced, hsound, hQ⟩ := h
  rw [Embedjson.flush, hbegin]
  by_cases hne : c.position ≠ .buffer i
  · have hlt : i < c.data := by
      refine lt_of_le_of_ne hle fun heq => hne ?_
      rw [Cursor.position, heq]
    have hlength : (i + (range chunk (.buffer i) c.data).length : ℤ) = c.data := by
      rw [range, List.length_take, List.length_drop]
      omega
    rw [if_pos hne, observe_returnIf (hf _ _)]
    refine ⟨high, g', ?_, (placed_cons_raw (hraw _ _)).mpr ⟨i, rfl, hi, ?_, ?_⟩, ?_, hQ⟩
    · rw [List.foldlM_cons, hg]
      exact hfold
    · exact List.take_eq_take_iff.mpr (by simp [range])
    · rw [hlength]
      exact hplaced
    · exact List.forall_mem_cons.mpr ⟨hs (range_ne_nil (h₀.trans hi) hlt hlen), hsound⟩
  · rw [if_neg hne]
    exact ⟨high, g', hfold, hplaced.mono (hi.trans hle), hsound, hQ⟩

lemma emits_plain (hlow : low ≤ d.data + 1) (hd : Plain d.lex.state) (hg : g = d.lex.group) :
    Emits chunk (Lands chunk) low g
      (observe LexerCall.isError (fallThrough d : LexerProgram δ Cursor)) :=
  emits_done ⟨hg, hlow, fun h => absurd hd h, fun h => absurd h hd.2⟩

lemma emits_begin (hlow : low ≤ d.data + 1) (hd : d.stringChunkBegin = .buffer (d.data + 1))
    (hg : g = d.lex.group) :
    Emits chunk (Lands chunk) low g
      (observe LexerCall.isError (fallThrough d : LexerProgram δ Cursor)) := by
  refine emits_done ⟨hg, hlow, fun _ => ⟨d.data + 1, hd, hlow, le_rfl⟩, fun _ => ?_⟩
  rw [show d.next.stringChunkBegin = _ from hd, show d.next.data = d.data + 1 from rfl, range_self]
  simp

end Rules

section Functions

variable {cfg : Config} {chunk : List UInt8} {low : ℤ} {c : Cursor} {b : UInt8}

lemma lookupToken_emits (hs : c.lex.state = .lookupToken) (hlow : low ≤ c.data + 1) :
    Emits chunk (Lands chunk) low .outside
      (observe LexerCall.isError (lookupToken c b : LexerProgram δ Cursor)) := by
  have hquiet : Emits chunk (Lands chunk) low .outside
      (observe LexerCall.isError (fallThrough c : LexerProgram δ Cursor)) :=
    emits_plain hlow (by rw [hs]; decide) (by rw [Lexer.group, hs])
  refine .ite (fun _ => hquiet) fun _ => ?_
  iterate 6 refine .ite (fun _ => .returnIf rfl rfl trivial rfl hquiet) fun _ => ?_
  refine .ite (fun _ => .returnIf rfl rfl trivial rfl (emits_begin hlow rfl rfl)) fun _ => ?_
  iterate 4 refine .ite (fun _ => emits_plain hlow ⟨nofun, nofun⟩ rfl) fun _ => ?_
  refine .ite (fun _ => emits_returnError) fun _ => ?_
  exact .ite (fun _ => emits_plain hlow ⟨nofun, nofun⟩ rfl) fun _ => emits_returnError

lemma inString_emits (hs : c.lex.state = .inString) (h : Anchored chunk low c) (h₀ : 0 ≤ low)
    (hlen : c.data ≤ chunk.length) :
    Emits chunk (Lands chunk) low .string
      (observe LexerCall.isError (inString cfg chunk c b : LexerProgram δ Cursor)) := by
  obtain ⟨i, hbegin, hi, hle⟩ := h.begins fun hp => hp.1 hs
  rw [inString]
  cases hcheck : checkUtf8 cfg c.lex b with
  | error code => exact emits_returnError
  | ok a =>
    obtain ⟨lex, last⟩ := a
    have hlex : lex.state = .inString := (checkUtf8_state hcheck).trans hs
    have hstay : Emits chunk (Lands chunk) low .string
        (observe LexerCall.isError (fallThrough { c with lex := lex } : LexerProgram δ Cursor)) := by
      refine emits_done ⟨by simp [Lexer.group, hlex], ?_, fun _ => ⟨i, hbegin, hi, ?_⟩, ?_⟩
      · exact h.low_le.trans (by simp [Cursor.next])
      · exact hle.trans (by simp [Cursor.next])
      · intro hbig
        cases hbig.symm.trans hlex
    have hleave {k : LexerProgram δ Cursor}
        (hk : Emits chunk (Lands chunk) c.data .string (observe LexerCall.isError k)) :
        Emits chunk (Lands chunk) low .string (observe LexerCall.isError (flush .tokenc chunk c k)) :=
      .flush hbegin h₀ hi hle hlen (fun _ _ => rfl) (fun _ _ => rfl) id (fun _ _ => rfl) hk
    have hdata : c.data ≤ c.data + 1 := by omega
    cases last with
    | false => exact hstay
    | true =>
      refine .ite (fun _ => hleave ?_) fun _ => .ite (fun _ => hleave ?_) fun _ =>
        .ite (fun _ => emits_returnError) fun _ => hstay
      · exact emits_plain hdata plain_inStringEscape rfl
      · exact .returnIf rfl rfl trivial rfl (emits_plain hdata plain_lookupToken rfl)

lemma inStringEscape_emits (hlow : low ≤ c.data + 1) :
    Emits chunk (Lands chunk) low .string
      (observe LexerCall.isError (inStringEscape c b : LexerProgram δ Cursor)) := by
  rw [inStringEscape]
  cases escapeByte b with
  | some e => exact .returnIf rfl rfl (by simp [LexerCall.Sound]) rfl (emits_begin hlow rfl rfl)
  | none => exact .ite (fun _ => emits_plain hlow ⟨nofun, nofun⟩ rfl) fun _ => emits_returnError

lemma inStringUnicodeEscape_emits (hs : c.lex.state = .inStringUnicodeEscape)
    (hlow : low ≤ c.data + 1) :
    Emits chunk (Lands chunk) low .string
      (observe LexerCall.isError (inStringUnicodeEscape c b : LexerProgram δ Cursor)) := by
  rw [inStringUnicodeEscape]
  cases hexDigit b with
  | none => exact emits_returnError
  | some value =>
    refine .ite (fun ho => ?_) fun ho => ?_
    · have hstate : (pushHexDigit c.lex value).state = .inString := by simp [pushHexDigit, ho]
      exact .returnIf rfl rfl (by simp [LexerCall.Sound]) rfl
        (emits_begin hlow rfl (by simp [Lexer.group, hstate]))
    · have hstate : (pushHexDigit c.lex value).state = .inStringUnicodeEscape := by
        simp [pushHexDigit, ho, hs]
      exact emits_plain hlow (by rw [hstate]; decide) (by simp [Lexer.group, hstate])

lemma inNumberSign_emits (hlow : low ≤ c.data + 1) :
    Emits chunk (Lands chunk) low .outside
      (observe LexerCall.isError (inNumberSign cfg c b : LexerProgram δ Cursor)) :=
  .ite (fun _ => emits_plain hlow ⟨nofun, nofun⟩ rfl) fun _ => emits_returnError

lemma inNumber_emits (hs : c.lex.state = .inNumber) (hlow : low ≤ c.data) :
    Emits chunk (Lands chunk) low .outside
      (observe LexerCall.isError (inNumber cfg c b : LexerProgram δ Cursor)) := by
  have hnext : low ≤ c.data + 1 := by omega
  have hplain : Plain (pushIntDigit cfg c.lex b).state := by
    rw [show (pushIntDigit cfg c.lex b).state = c.lex.state from rfl, hs]
    decide
  refine .ite (fun _ => .ite (fun _ => emits_returnError) fun _ => .ite (fun _ => .ite (fun _ => ?_)
    fun _ => emits_returnError) fun _ => ?_) fun _ => .ite (fun _ => ?_) fun _ => .ite (fun _ => ?_)
    fun _ => ?_
  · exact .returnIf rfl rfl trivial rfl (emits_begin hnext rfl rfl)
  · exact emits_plain hnext hplain (by simp [Lexer.group, pushIntDigit, hs])
  · exact emits_plain hnext ⟨nofun, nofun⟩ rfl
  · exact emits_plain hnext ⟨nofun, nofun⟩ rfl
  · exact .returnIf rfl rfl trivial rfl (emits_plain (by simpa using hlow) ⟨nofun, nofun⟩ rfl)

lemma inNumberExpSign_emits (hlow : low ≤ c.data + 1) :
    Emits chunk (Lands chunk) low .outside
      (observe LexerCall.isError (inNumberExpSign c b : LexerProgram δ Cursor)) :=
  .ite (fun _ => emits_plain hlow ⟨nofun, nofun⟩ rfl) fun _ =>
    .ite (fun _ => emits_plain hlow ⟨nofun, nofun⟩ rfl) fun _ =>
      .ite (fun _ => emits_returnError) fun _ => emits_plain hlow ⟨nofun, nofun⟩ rfl

lemma inBigNumber_emits (hs : c.lex.state = .inBigNumber) (h : Anchored chunk low c) (h₀ : 0 ≤ low)
    (hb : deref chunk c.data = some b) (hlen : c.data ≤ chunk.length) :
    Emits chunk (Lands chunk) low .bignum
      (observe LexerCall.isError (inBigNumber chunk c b : LexerProgram δ Cursor)) := by
  obtain ⟨i, hbegin, hi, hle⟩ := h.begins fun hp => hp.2 hs
  have hbytes := h.bytes hs
  rw [hbegin] at hbytes
  refine .ite (fun hdigit => ?_) fun _ => ?_
  · refine emits_done ⟨by rw [Lexer.group, hs], ?_, fun _ => ⟨i, hbegin, hi, ?_⟩, fun _ => ?_⟩
    · exact h.low_le.trans (by simp [Cursor.next])
    · exact hle.trans (by simp [Cursor.next])
    · rw [show c.next.stringChunkBegin = _ from hbegin, show c.next.data = c.data + 1 from rfl,
        range_succ (h₀.trans hi) hle hb]
      refine List.forall_mem_append.mpr ⟨hbytes, List.forall_mem_singleton.mpr ?_⟩
      simpa [isBignumByte, or_assoc] using hdigit
  · refine .flush hbegin h₀ hi hle hlen (fun _ _ => rfl) (fun _ _ => rfl) (fun hne => ⟨hne, hbytes⟩)
      (fun _ _ => rfl) (.returnIf rfl rfl trivial rfl (emits_plain ?_ plain_lookupToken rfl))
    simp

lemma inKeyword_emits {keyword : String} {code : ErrorCode} {tok : Tok} {last : ℕ}
    (hs : Plain c.lex.state) (hg : .outside = c.lex.group) (hlow : low ≤ c.data + 1) :
    Emits chunk (Lands chunk) low .outside
      (observe LexerCall.isError (inKeyword keyword code tok last c b : LexerProgram δ Cursor)) :=
  .ite (fun _ => emits_returnError) fun _ => .ite (fun _ => .returnIf rfl rfl trivial rfl
    (emits_plain hlow ⟨nofun, nofun⟩ rfl)) fun _ => emits_plain hlow hs hg

variable [DoubleArith δ]

lemma inNumberFrac_emits (hs : c.lex.state = .inNumberFrac) (hlow : low ≤ c.data) :
    Emits chunk (Lands chunk) low .outside
      (observe LexerCall.isError (inNumberFrac c b : LexerProgram δ Cursor)) := by
  have hnext : low ≤ c.data + 1 := by omega
  have hplain : Plain (pushFracDigit c.lex b).state := by
    rw [show (pushFracDigit c.lex b).state = c.lex.state from rfl, hs]
    decide
  refine .ite (fun _ => emits_plain hnext hplain (by simp [Lexer.group, pushFracDigit, hs])) fun _ =>
    .ite (fun _ => .ite (fun _ => emits_returnError) fun _ => emits_plain hnext ⟨nofun, nofun⟩ rfl)
    fun _ => .ite (fun _ => emits_returnError) fun _ => ?_
  exact .returnIf rfl rfl trivial rfl (emits_plain (by simpa using hlow) ⟨nofun, nofun⟩ rfl)

lemma inNumberExp_emits (hs : c.lex.state = .inNumberExp) (hlow : low ≤ c.data) :
    Emits chunk (Lands chunk) low .outside
      (observe LexerCall.isError (inNumberExp c b : LexerProgram δ Cursor)) := by
  have hnext : low ≤ c.data + 1 := by omega
  have hplain : Plain (pushExpDigit c.lex b).state := by
    rw [show (pushExpDigit c.lex b).state = c.lex.state from rfl, hs]
    decide
  refine .ite (fun _ => .ite (fun _ => emits_returnError) fun _ => emits_plain hnext hplain
    (by simp [Lexer.group, pushExpDigit, hs])) fun _ => .ite (fun _ => emits_returnError) fun _ => ?_
  exact .returnIf rfl rfl trivial rfl (emits_plain (by simpa using hlow) ⟨nofun, nofun⟩ rfl)

variable (cfg) in
lemma dispatch_emits (h : Anchored chunk low c) (h₀ : 0 ≤ low) (hb : deref chunk c.data = some b)
    (hlen : c.data ≤ chunk.length) :
    Emits chunk (Lands chunk) low c.lex.group
      (observe LexerCall.isError (dispatch cfg chunk c b : LexerProgram δ Cursor)) := by
  have hlow := h.low_le
  have hnext : low ≤ c.data + 1 := by omega
  rw [dispatch, Lexer.group]
  cases hs : c.lex.state with
  | lookupToken => exact lookupToken_emits hs hnext
  | inString => exact inString_emits hs h h₀ hlen
  | inStringEscape => exact inStringEscape_emits hnext
  | inStringUnicodeEscape => exact inStringUnicodeEscape_emits hs hnext
  | inNumberSign => exact inNumberSign_emits hnext
  | inNumber => exact inNumber_emits hs hlow
  | inNumberFrac => exact inNumberFrac_emits hs hlow
  | inNumberExpSign => exact inNumberExpSign_emits hnext
  | inNumberExp => exact inNumberExp_emits hs hlow
  | inBigNumber => exact inBigNumber_emits hs h h₀ hb hlen
  | inTrue | inFalse | inNull =>
    exact inKeyword_emits (by rw [hs]; decide) (by rw [Lexer.group, hs]) hnext

end Functions

section Loop

variable {cfg : Config} {chunk : List UInt8} {low : ℤ} {c : Cursor}

lemma flushEnd_emits (h : Anchored chunk low c) (h₀ : 0 ≤ low) (hlen : c.data ≤ chunk.length) :
    Emits chunk (fun _ g a => a = .ok c.lex ∧ g = c.lex.group) low c.lex.group
      (observe LexerCall.isError (flushEnd chunk c : LexerProgram δ Lexer)) := by
  have hdone (low : ℤ) : Emits chunk (fun _ g a => a = .ok c.lex ∧ g = c.lex.group) low c.lex.group
      (observe LexerCall.isError (fallThrough c.lex : LexerProgram δ Lexer)) :=
    emits_done ⟨rfl, rfl⟩
  rw [flushEnd]
  cases hs : c.lex.state with
  | inString =>
    obtain ⟨i, hbegin, hi, hle⟩ := h.begins fun hp => hp.1 hs
    refine .flush hbegin h₀ hi hle hlen (fun _ _ => rfl) (fun _ _ => rfl) id (fun _ _ => ?_) (hdone _)
    rw [Lexer.group, hs]
    rfl
  | inBigNumber =>
    obtain ⟨i, hbegin, hi, hle⟩ := h.begins fun hp => hp.2 hs
    have hbytes := h.bytes hs
    rw [hbegin] at hbytes
    refine .flush hbegin h₀ hi hle hlen (fun _ _ => rfl) (fun _ _ => rfl) (fun hne => ⟨hne, hbytes⟩)
      (fun _ _ => ?_) (hdone _)
    rw [Lexer.group, hs]
    rfl
  | _ => exact hdone low

variable [DoubleArith δ]

def Ends (chunk : List UInt8) (high : ℤ) (g : CallGroup) : Option (Flow Cursor) → Prop
  | some (.ok d) => g = d.lex.group ∧ Anchored chunk high d ∧ d.data = chunk.length
  | _ => True

variable (cfg) in
lemma loop_emits (fuel : ℕ) (h : Anchored chunk low c) (h₀ : 0 ≤ low) :
    Emits chunk (Ends chunk) low c.lex.group
      (observe LexerCall.isError (loop cfg chunk fuel c : Program (LexerCall δ) _)) := by
  induction fuel generalizing low c with
  | zero => exact emits_done trivial
  | succ fuel ih =>
    rw [loop]
    by_cases hend : c.data = chunk.length
    · rw [if_pos hend]
      exact emits_done ⟨rfl, h, hend⟩
    · rw [if_neg hend]
      cases hb : deref chunk c.data with
      | none => exact emits_done trivial
      | some b =>
        have hgroup : (recordMagic c.lex b).group = c.lex.group := by simp [Lexer.group]
        have hrecorded : Anchored chunk low { c with lex := recordMagic c.lex b } :=
          ⟨h.low_le, by simpa using h.begins, by simpa using h.bytes⟩
        have hfirst := dispatch_emits (δ := δ) cfg hrecorded h₀ hb (deref_lt hb).le
        rw [hgroup] at hfirst
        dsimp only
        rw [observe_bind]
        refine hfirst.followedBy fun high g a hhigh _ hlands => ?_
        cases a with
        | error r => exact emits_done trivial
        | ok d =>
          obtain ⟨rfl, hnext⟩ := hlands
          exact ih hnext (h₀.trans hhigh)

variable (cfg) in
theorem embedjsonLexerPush_emits (lexer : Lexer) (chunk : List UInt8) :
    Emits chunk (fun _ g a => g = a.2.group) 0 lexer.group
      (observe LexerCall.isError (embedjsonLexerPush (δ := δ) cfg chunk lexer)) := by
  have hstart : Anchored chunk 0 (start lexer) := by
    refine ⟨le_rfl, fun h => ⟨0, ?_, le_rfl, le_rfl⟩, fun h => ?_⟩
    · rw [start, if_pos]
      by_contra hs
      exact h (not_or.mp hs)
    · rw [show (start lexer).data = 0 from rfl, start, if_pos (.inr h), range_self]
      simp
  rw [embedjsonLexerPush_eq, observe_bind]
  refine (loop_emits cfg _ hstart le_rfl).followedBy fun high g a hhigh ha hend => ?_
  obtain ⟨c, rfl⟩ : ∃ c, a = some (.ok c) := by
    have hdel := start_delivers (δ := δ) cfg lexer 0 chunk
    rcases hrun : (scanner (δ := δ) cfg).run ⟨lexer, 0⟩ chunk with ⟨calls, code | s⟩
    · rw [hrun] at hdel
      cases ha.symm.trans hdel.2.1
    · rw [hrun] at hdel
      obtain ⟨-, c, hc, -⟩ := hdel
      exact ⟨c, Option.some.inj (ha.symm.trans hc)⟩
  obtain ⟨rfl, hanchored, hdata⟩ := hend
  rw [afterLoop, observe_bind]
  refine (flushEnd_emits hanchored hhigh hdata.le).followedBy fun high g a _ _ hlex => ?_
  obtain ⟨rfl, rfl⟩ := hlex
  exact emits_done rfl

end Loop

def Grouped (g : CallGroup) (calls : List (LexerCall δ)) (g' : CallGroup) : Prop :=
  calls.foldlM CallGroup.next g = some g' ∧ ∀ f ∈ calls, f.Sound

section Sessions

variable {g g' g'' : CallGroup} {l m : List (LexerCall δ)}

lemma grouped_nil : Grouped g ([] : List (LexerCall δ)) g := ⟨rfl, by simp⟩

lemma Grouped.append (hl : Grouped g l g') (hm : Grouped g' m g'') : Grouped g (l ++ m) g'' := by
  refine ⟨?_, List.forall_mem_append.mpr ⟨hl.2, hm.2⟩⟩
  rw [List.foldlM_append, hl.1]
  exact hm.1

lemma Grouped.of_isPrefix (h : Grouped g m g') (hl : l <+: m) : ∃ g'', Grouped g l g'' := by
  obtain ⟨n, rfl⟩ := hl
  obtain ⟨hfold, hsound⟩ := h
  rw [List.foldlM_append] at hfold
  obtain ⟨g'', hg, -⟩ := Option.bind_eq_some_iff.mp hfold
  exact ⟨g'', hg, fun f hf => hsound f (List.mem_append_left _ hf)⟩

variable [DoubleArith δ] {cfg : Config}

variable (cfg) in
lemma embedjsonLexerPush_grouped (lexer : Lexer) (chunk : List UInt8) :
    ∃ g, Grouped lexer.group
        (observe LexerCall.isError (embedjsonLexerPush (δ := δ) cfg chunk lexer)).1 g ∧
      ∀ a, (observe LexerCall.isError (embedjsonLexerPush (δ := δ) cfg chunk lexer)).2 = some a →
        g = a.2.group := by
  obtain ⟨_, g, hfold, -, hsound, hg⟩ := embedjsonLexerPush_emits (δ := δ) cfg lexer chunk
  exact ⟨g, ⟨hfold, hsound⟩, hg⟩

variable (cfg) in
lemma lexerPushAll_grouped (lexer : Lexer) (chunks : List (List UInt8)) :
    ∃ g, Grouped lexer.group
        (observe LexerCall.isError (lexerPushAll (δ := δ) cfg lexer chunks)).1 g ∧
      ∀ a, (observe LexerCall.isError (lexerPushAll (δ := δ) cfg lexer chunks)).2 = some a →
        g = a.2.group := by
  induction chunks generalizing lexer with
  | nil =>
    refine ⟨lexer.group, grouped_nil, ?_⟩
    rintro _ ⟨⟩
    rfl
  | cons chunk chunks ih =>
    obtain ⟨g, hg, hend⟩ := embedjsonLexerPush_grouped (δ := δ) cfg lexer chunk
    rw [lexerPushAll, observe_bind]
    rcases ho : observe LexerCall.isError (embedjsonLexerPush (δ := δ) cfg chunk lexer) with ⟨l, _ | a⟩
    · rw [ho] at hg
      refine ⟨g, hg, fun a ha => ?_⟩
      cases ha
    · have hzero : a.1 = 0 := (embedjsonLexerPush_failsFast lexer).observe_eq ho
      rw [ho] at hg hend
      obtain rfl := hend a rfl
      obtain ⟨g', hg', hend'⟩ := ih a.2
      rw [followedBy_some, if_neg (not_not_intro hzero)]
      exact ⟨g', hg.append hg', hend'⟩

variable (cfg) in
lemma embedjsonLexerFinalize_grouped (lexer : Lexer) :
    ∃ g, Grouped lexer.group
      (observe LexerCall.isError (embedjsonLexerFinalize (δ := δ) cfg lexer)).1 g ∧ g ≠ .bignum := by
  rw [embedjsonLexerFinalize, Lexer.group]
  cases lexer.state with
  | inString | inStringEscape | inStringUnicodeEscape =>
    refine ⟨.string, ⟨rfl, ?_⟩, by decide⟩
    simp [invoke, observe, LexerCall.isError, LexerCall.Sound]
  | _ =>
    refine ⟨.outside, ⟨rfl, ?_⟩, by decide⟩
    simp [invoke, observe, LexerCall.isError, LexerCall.Sound]

/-- A user of the lexer who pushes some chunks and then finalizes. -/
def lexerSession (cfg : Config) (lexer : Lexer) (chunks : List (List UInt8)) :
    Program (LexerCall δ) ℤ :=
  (lexerPushAll cfg lexer chunks).bind fun a =>
    if a.1 ≠ 0 then .done a.1 else embedjsonLexerFinalize cfg a.2

variable (cfg) in
lemma lexerSession_failsFast (lexer : Lexer) (chunks : List (List UInt8)) :
    FailsFast id (lexerSession (δ := δ) cfg lexer chunks) := by
  refine (lexerPushAll_failsFast cfg lexer chunks).bind (fun a ha => ?_) fun a ha => ?_
  · rw [if_neg (not_not_intro ha)]
    exact embedjsonLexerFinalize_failsFast a.2
  · exact ⟨a.1, if_pos ha, rfl⟩

variable (cfg) in
lemma lexerSession_grouped (lexer : Lexer) (chunks : List (List UInt8)) :
    ∃ g, Grouped lexer.group
      (observe LexerCall.isError (lexerSession (δ := δ) cfg lexer chunks)).1 g := by
  obtain ⟨g, hg, hend⟩ := lexerPushAll_grouped (δ := δ) cfg lexer chunks
  rw [lexerSession, observe_bind]
  rcases ho : observe LexerCall.isError (lexerPushAll (δ := δ) cfg lexer chunks) with ⟨l, _ | a⟩
  · rw [ho] at hg
    exact ⟨g, hg⟩
  · have hzero : a.1 = 0 := (lexerPushAll_failsFast cfg lexer chunks).observe_eq ho
    rw [ho] at hg hend
    obtain rfl := hend a rfl
    obtain ⟨g', hg', -⟩ := embedjsonLexerFinalize_grouped (δ := δ) cfg a.2
    rw [followedBy_some, if_neg (not_not_intro hzero)]
    exact ⟨g', hg.append hg'⟩

end Sessions

end Embedjson
