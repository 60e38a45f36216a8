import Embedjson.Parser.Invariant
import Embedjson.Parser.Push
import Embedjson.Parser.Valid

namespace Embedjson

open Foundations Foundations.Program

variable {δ : Type}

structure Bignum where
  position : Pointer
  initialValue : ℤ
  chunks : List (Pointer × List UInt8)
  last : Pointer

def Bignum.calls (big : Bignum) : List (LexerCall δ) :=
  .tokenbnBegin big.position big.initialValue ::
    big.chunks.map (fun chunk => .tokenbn chunk.1 chunk.2) ++ [.tokenbnEnd big.last]

/-- A token that is kept, or an integer and the big number that replaces it. -/
inductive Slot (δ : Type) where
  | kept (calls : List (LexerCall δ))
  | integer (value : ℤ) (position : Pointer) (big : Bignum)

def Slot.original : Slot δ → List (LexerCall δ)
  | kept calls => calls
  | integer value position _ => [.tokeni value position]

def Slot.replaced : Slot δ → List (LexerCall δ)
  | kept calls => calls
  | integer _ _ big => big.calls

inductive Ordinary : List (LexerCall δ) → Prop
  | token (token : Tok) (position : Pointer) : Ordinary [.token token position]
  | tokeni (value : ℤ) (position : Pointer) : Ordinary [.tokeni value position]
  | tokenf (value : δ) (position : Pointer) : Ordinary [.tokenf value position]
  | tokenc (position : Pointer) (chunks : List (Pointer × List UInt8)) (last : Pointer) :
      Ordinary (.tokencBegin position :: chunks.map (fun chunk => .tokenc chunk.1 chunk.2) ++
        [.tokencEnd last])

def AwaitsValue (s : ParserState) : Prop :=
  s = .expectValue ∨ s = .expectObjectValue ∨ s = .maybeArrayValue ∨ s = .expectArrayValue

variable {cfg : Config} {answer : List (UserCall δ) → UserCall δ → ℤ} {p q : Parser}
  {history : List (UserCall δ)}

section Drive

lemma run_drive_call (hA : Accepting UserCall.isError answer) {f : LexerCall δ} {u : UserCall δ}
    (h : onLexerCall cfg f p = returnCall u q) (hu : u.isError = false) (m : List (LexerCall δ)) :
    (run answer (drive cfg p (f :: m)) history).2 =
      (run answer (drive cfg q m) (history ++ [u])).2 := by
  simp [drive, h, returnCall, run, hA.accepts history u hu]

lemma run_drive_reject (hA : Accepting UserCall.isError answer) {f : LexerCall δ} {code : ErrorCode}
    {position : Pointer} (h : onLexerCall cfg f p = returnErrorEx q code position)
    (m : List (LexerCall δ)) :
    (run answer (drive cfg p (f :: m)) history).2.1 ≠ 0 ∧
      (run answer (drive cfg p (f :: m)) history).2.2 = q := by
  have hr : answer history (.error code position) ≠ 0 := hA.refuses history _ rfl
  simp [drive, h, returnErrorEx, returnCall, run, hr]

end Drive

section Tokens

def BehindValue (s : ParserState) : Prop := s = .done ∨ s = .maybeObjectComma ∨ s = .maybeArrayComma

variable (cfg) in
lemma numberToken_awaits (h : AwaitsValue p.state) (u : UserCall δ) (position : Pointer) :
    ∃ s, BehindValue s ∧ numberToken cfg p u position = returnCall u { p with state := s } := by
  unfold numberToken
  rcases h with h | h | h | h <;> rw [h]
  · exact ⟨.done, .inl rfl, rfl⟩
  · exact ⟨.maybeObjectComma, .inr (.inl rfl), rfl⟩
  · exact ⟨.maybeArrayComma, .inr (.inr rfl), rfl⟩
  · exact ⟨.maybeArrayComma, .inr (.inr rfl), rfl⟩

variable (cfg) in
lemma numberToken_refused (hp : p.state ≠ .invalid) (h : ¬AwaitsValue p.state) (u : UserCall δ)
    (position : Pointer) :
    ∃ code, numberToken cfg p u position = returnErrorEx p code position := by
  unfold numberToken
  cases hs : p.state with
  | expectValue => exact absurd (.inl hs) h
  | expectObjectValue => exact absurd (.inr (.inl hs)) h
  | maybeArrayValue => exact absurd (.inr (.inr (.inl hs))) h
  | expectArrayValue => exact absurd (.inr (.inr (.inr hs))) h
  | invalid => exact absurd hs hp
  | _ => exact ⟨_, rfl⟩

lemma checkState_valid (hp : p.state ≠ .invalid) (position : Pointer) (k : ParserProgram δ) :
    checkState cfg p position k = k := if_neg fun h => hp h.2

variable (hA : Accepting UserCall.isError answer)

include hA

lemma run_tokenbnEnd (h : BehindValue p.state) (position : Pointer) :
    (run answer (drive cfg p [.tokenbnEnd position]) history).2.1 = 0 →
      (run answer (drive cfg p [.tokenbnEnd position]) history).2.2.state = .invalid := by
  have hp : p.state ≠ .invalid := by rcases h with h | h | h <;> simp [h]
  have hnext : lookupNextState bignumNextState p = { p with state := .invalid } := by
    rcases h with h | h | h <;> simp [lookupNextState, bignumNextState, h]
  have hcall : onLexerCall (δ := δ) cfg (.tokenbnEnd position) p =
      checkState cfg { p with state := .invalid } position
        (returnCall .bignumEnd { p with state := .invalid }) := by
    rw [onLexerCall, embedjsonTokenbnEnd, endToken, checkState_valid hp, hnext]
  by_cases hd : cfg.debug = true
  · have hreject : onLexerCall (δ := δ) cfg (.tokenbnEnd position) p =
        returnErrorEx { p with state := .invalid } .internalError position := by
      rw [hcall, checkState, if_pos ⟨hd, rfl⟩]
    exact fun h => absurd h (run_drive_reject hA hreject []).1
  · have htake : onLexerCall (δ := δ) cfg (.tokenbnEnd position) p =
        returnCall .bignumEnd { p with state := .invalid } := by
      rw [hcall, checkState, if_neg fun h => hd h.1]
    intro
    rw [run_drive_call hA htake rfl]
    rfl

lemma run_tokenbn (h : BehindValue p.state) (chunks : List (Pointer × List UInt8))
    (last : Pointer) :
    (run answer (drive cfg p
        (chunks.map (fun chunk => .tokenbn chunk.1 chunk.2) ++ [.tokenbnEnd last])) history).2.1 = 0 →
      (run answer (drive cfg p
        (chunks.map (fun chunk => .tokenbn chunk.1 chunk.2) ++ [.tokenbnEnd last])) history).2.2.state =
        .invalid := by
  induction chunks generalizing history with
  | nil => exact run_tokenbnEnd hA h last
  | cons chunk chunks ih =>
    have hp : p.state ≠ .invalid := by rcases h with h | h | h <;> simp [h]
    have hcall : onLexerCall (δ := δ) cfg (.tokenbn chunk.1 chunk.2) p =
        returnCall (.bignumChunk chunk.2) p := by
      rw [onLexerCall, embedjsonTokenbn, checkState_valid hp]
    rw [List.map_cons, List.cons_append, run_drive_call hA hcall rfl]
    exact ih

variable (cfg history) in
lemma run_number_awaits (h : AwaitsValue p.state) (value : ℤ) (position : Pointer) (big : Bignum) :
    ((run answer (drive cfg p [.tokeni value position]) history).2.1 = 0 ∧
        (run answer (drive cfg p [.tokeni value position]) history).2.2.state ≠ .invalid) ∧
      ((run answer (drive cfg p big.calls) history).2.1 = 0 →
        (run answer (drive cfg p big.calls) history).2.2.state = .invalid) := by
  constructor
  · obtain ⟨s, hs, hcall⟩ := numberToken_awaits cfg h (.int (δ := δ) value) position
    rw [run_drive_call hA (show onLexerCall cfg (.tokeni value position) p = _ from hcall) rfl]
    rcases hs with rfl | rfl | rfl <;> exact ⟨rfl, nofun⟩
  · obtain ⟨s, hs, hcall⟩ :=
      numberToken_awaits cfg h (.bignumBegin (δ := δ) big.initialValue) big.position
    rw [Bignum.calls, List.cons_append, run_drive_call hA
      (show onLexerCall cfg (.tokenbnBegin big.position big.initialValue) p = _ from hcall) rfl]
    exact run_tokenbn hA hs big.chunks big.last

lemma run_tokeni_refused (hp : p.state ≠ .invalid) (h : ¬AwaitsValue p.state) (value : ℤ)
    (position : Pointer) (rest : List (LexerCall δ)) :
    (run answer (drive cfg p (.tokeni value position :: rest)) history).2.1 ≠ 0 := by
  obtain ⟨code, hcall⟩ := numberToken_refused cfg hp h (.int (δ := δ) value) position
  exact (run_drive_reject hA (show onLexerCall cfg (.tokeni value position) p = _ from hcall) _).1

lemma run_tokenbn_refused (hp : p.state ≠ .invalid) (h : ¬AwaitsValue p.state) (position : Pointer)
    (initialValue : ℤ) (rest : List (LexerCall δ)) :
    (run answer (drive cfg p (.tokenbnBegin position initialValue :: rest)) history).2.1 ≠ 0 ∧
      (run answer (drive cfg p (.tokenbnBegin position initialValue :: rest)) history).2.2 = p := by
  obtain ⟨code, hcall⟩ :=
    numberToken_refused cfg hp h (.bignumBegin (δ := δ) initialValue) position
  exact run_drive_reject hA
    (show onLexerCall cfg (.tokenbnBegin position initialValue) p = _ from hcall) _

end Tokens

section Valid

lemma run_single_valid (hp : p.state ≠ .invalid) {f : LexerCall δ} {l : List (LexerCall δ)}
    (hl : l <+: [f]) (h : StaysValid (onLexerCall cfg f p)) :
    (run answer (drive cfg p l) history).2.2.state ≠ .invalid := by
  rcases l with _ | ⟨g, l⟩
  · exact hp
  · obtain ⟨rfl, htail⟩ := List.cons_prefix_cons.mp hl
    obtain rfl := List.prefix_nil.mp htail
    have hdrive : StaysValid (drive cfg p [g]) := Returns.bind h fun _ ha => StaysValid.ite ha ha
    exact hdrive.run answer history

variable (cfg) in
lemma tokencBegin_cases (hp : p.state ≠ .invalid) (position : Pointer) :
    (∃ code, (embedjsonTokencBegin cfg p position : ParserProgram δ) =
        returnErrorEx p code position) ∨
      (embedjsonTokencBegin cfg p position : ParserProgram δ) = returnCall .stringBegin p ∧
        ∃ s, stringNextState p.state = some s ∧ s ≠ .invalid := by
  unfold embedjsonTokencBegin
  cases hs : p.state with
  | expectValue | maybeObjectKey | expectObjectKey | expectObjectValue | maybeArrayValue
  | expectArrayValue => exact .inr ⟨rfl, _, rfl, by decide⟩
  | invalid => exact absurd hs hp
  | _ => exact .inl ⟨_, rfl⟩

variable (hA : Accepting UserCall.isError answer)

include hA

lemma run_tokenc_valid (hp : p.state ≠ .invalid) {s : ParserState}
    (hs : stringNextState p.state = some s) (hvalid : s ≠ .invalid)
    (chunks : List (Pointer × List UInt8)) (last : Pointer) {l : List (LexerCall δ)}
    (hl : l <+: chunks.map (fun chunk => .tokenc chunk.1 chunk.2) ++ [.tokencEnd last]) :
    (run answer (drive cfg p l) history).2.2.state ≠ .invalid := by
  induction chunks generalizing l history with
  | nil =>
    refine run_single_valid hp hl ?_
    have hnext : lookupNextState stringNextState p = { p with state := s } := by
      rw [lookupNextState, hs]
    rw [onLexerCall, embedjsonTokencEnd, endToken, checkState_valid hp, hnext,
      checkState_valid hvalid]
    exact .returnCall hvalid
  | cons chunk chunks ih =>
    rcases l with _ | ⟨f, l⟩
    · exact hp
    · obtain ⟨rfl, htail⟩ := List.cons_prefix_cons.mp hl
      have hcall : onLexerCall (δ := δ) cfg (.tokenc chunk.1 chunk.2) p =
          returnCall (.stringChunk chunk.2) p := by
        rw [onLexerCall, embedjsonTokenc, checkState_valid hp]
      rw [run_drive_call hA hcall rfl]
      exact ih htail

lemma run_ordinary_valid (hp : p.state ≠ .invalid) {calls : List (LexerCall δ)} (h : Ordinary calls)
    {l : List (LexerCall δ)} (hl : l <+: calls) :
    (run answer (drive cfg p l) history).2.2.state ≠ .invalid := by
  cases h with
  | token t position => exact run_single_valid hp hl (.embedjsonToken hp t position)
  | tokeni value position => exact run_single_valid hp hl (.numberToken hp position)
  | tokenf value position => exact run_single_valid hp hl (.numberToken hp position)
  | tokenc position chunks last =>
    rcases l with _ | ⟨f, l⟩
    · exact hp
    · obtain ⟨rfl, htail⟩ := List.cons_prefix_cons.mp hl
      rcases tokencBegin_cases (δ := δ) cfg hp position with ⟨code, hcall⟩ | ⟨hcall, s, hs, hs'⟩
      · rw [(run_drive_reject hA (show onLexerCall cfg (.tokencBegin position) p = _ from hcall) l).2]
        exact hp
      · rw [run_drive_call hA (show onLexerCall cfg (.tokencBegin position) p = _ from hcall) rfl]
        exact run_tokenc_valid hA hp hs hs' chunks last htail

end Valid

section Replacement

/-- Two runs token by token, from the parsers `p` and `q`. As long as the tokens are accepted, they
leave the same state and stack, and a kept token has the same events. -/
def SameRun (cfg : Config) (answer : List (UserCall δ) → UserCall δ → ℤ) :
    List (Slot δ) → Parser → List (UserCall δ) → Parser → List (UserCall δ) → Prop
  | [], _, _, _, _ => True
  | slot :: slots, p, before, q, before' =>
    let x := run answer (drive cfg p slot.original) before
    let y := run answer (drive cfg q slot.replaced) before'
    (x.2.1 = 0 ↔ y.2.1 = 0) ∧
    (∀ calls, slot = .kept calls → x.1 = y.1) ∧
    (x.2.1 = 0 → x.2.2.state = y.2.2.state ∧ x.2.2.stackSize = y.2.2.stackSize ∧
      x.2.2.stack = y.2.2.stack ∧
      SameRun cfg answer slots x.2.2 (before ++ x.1) y.2.2 (before' ++ y.1))

def finishAfter [DoubleArith δ] (cfg : Config) (calls : List (LexerCall δ)) : ParserProgram δ :=
  (drive cfg (.zero cfg) calls).bind fun a => if a.1 ≠ 0 then .done a else embedjsonFinalize cfg a.2

/-- The big numbers play the role of the integers. The tables `next_state` are looked up in the
states behind the beginnings of the sequence. -/
def SameRole [DoubleArith δ] (cfg : Config) (answer : List (UserCall δ) → UserCall δ → ℤ)
    (slots : List (Slot δ)) : Prop :=
  SameRun cfg answer slots (.zero cfg) [] (.zero cfg) [] ∧
  ((run answer (finishAfter cfg (slots.flatMap Slot.original)) []).2.1 = 0 ↔
    (run answer (finishAfter cfg (slots.flatMap Slot.replaced)) []).2.1 = 0) ∧
  ∀ l, l <+: slots.flatMap Slot.replaced →
    (run answer (drive cfg (.zero cfg) l) []).2.2.state ≠ .invalid

/-- No integer that is replaced comes where a value is expected. -/
def Misplaced (cfg : Config) (answer : List (UserCall δ) → UserCall δ → ℤ) (slots : List (Slot δ))
    (p : Parser) (before : List (UserCall δ)) : Prop :=
  ∀ front value position big rest, slots = front ++ .integer value position big :: rest →
    (run answer (drive cfg p (front.flatMap Slot.original)) before).2.1 = 0 →
      ¬AwaitsValue (run answer (drive cfg p (front.flatMap Slot.original)) before).2.2.state

variable {slots : List (Slot δ)} {before : List (UserCall δ)}

lemma misplaced_kept {calls : List (LexerCall δ)} :
    Misplaced cfg answer (.kept calls :: slots) p before ↔
      ((run answer (drive cfg p calls) before).2.1 = 0 →
        Misplaced cfg answer slots (run answer (drive cfg p calls) before).2.2
          (before ++ (run answer (drive cfg p calls) before).1)) := by
  constructor
  · rintro h hz front value position big rest rfl
    have hfront := h (.kept calls :: front) value position big rest rfl
    rw [List.flatMap_cons, Slot.original, run_drive_append_ok hz] at hfront
    exact hfront
  · intro h front value position big rest heq
    cases front with
    | nil => simp at heq
    | cons slot front =>
      obtain ⟨rfl, htail⟩ := List.cons.inj heq
      by_cases hz : (run answer (drive cfg p calls) before).2.1 = 0
      · rw [List.flatMap_cons, Slot.original, run_drive_append_ok hz]
        exact h hz front value position big rest htail
      · rw [List.flatMap_cons, Slot.original, run_drive_append_failed hz]
        exact fun hz' => absurd hz' hz

variable (hA : Accepting UserCall.isError answer)

include hA

lemma misplaced_integer (hp : p.state ≠ .invalid) {value : ℤ} {position : Pointer} {big : Bignum} :
    Misplaced cfg answer (.integer value position big :: slots) p before ↔ ¬AwaitsValue p.state := by
  refine ⟨fun h => h [] value position big slots rfl rfl, fun h => ?_⟩
  intro front value' position' big' rest heq
  cases front with
  | nil => exact fun _ => h
  | cons slot front =>
    obtain ⟨rfl, -⟩ := List.cons.inj heq
    intro hz
    exact absurd hz (run_tokeni_refused hA hp h value position _)

lemma sameRun_iff (hslots : ∀ calls, .kept calls ∈ slots → Ordinary calls)
    (hp : p.state ≠ .invalid) :
    SameRun cfg answer slots p before p before ↔ Misplaced cfg answer slots p before := by
  induction slots generalizing p before with
  | nil => exact ⟨fun _ front _ _ _ _ h => by simp at h, fun _ => trivial⟩
  | cons slot slots ih =>
    cases slot with
    | kept calls =>
      have hcalls : Ordinary calls := hslots calls (by simp)
      have hnext : (run answer (drive cfg p calls) before).2.2.state ≠ .invalid :=
        run_ordinary_valid hA hp hcalls (List.prefix_refl _)
      rw [misplaced_kept, ← ih (fun c hc => hslots c (List.mem_cons_of_mem _ hc)) hnext]
      exact ⟨fun h hz => (h.2.2 hz).2.2.2,
        fun h => ⟨Iff.rfl, fun _ _ => rfl, fun hz => ⟨rfl, rfl, rfl, h hz⟩⟩⟩
    | integer value position big =>
      rw [misplaced_integer hA hp]
      constructor
      · intro h hawaits
        obtain ⟨⟨hz, hvalid⟩, hruin⟩ :=
          run_number_awaits cfg before hA hawaits value position big
        obtain ⟨hstate, -⟩ := h.2.2 hz
        exact hvalid (hstate.trans (hruin (h.1.mp hz)))
      · intro h
        have hz : (run answer (drive cfg p [.tokeni value position]) before).2.1 ≠ 0 :=
          run_tokeni_refused hA hp h value position []
        have hz' : (run answer (drive cfg p big.calls) before).2.1 ≠ 0 :=
          (run_tokenbn_refused hA hp h big.position big.initialValue _).1
        exact ⟨⟨fun h => absurd h hz, fun h => absurd h hz'⟩, nofun, fun h => absurd h hz⟩

/-- Both runs are the same up to the first integer that is replaced, which both refuse. -/
lemma run_misplaced (hslots : ∀ calls, .kept calls ∈ slots → Ordinary calls)
    (hp : p.state ≠ .invalid) (h : Misplaced cfg answer slots p before) :
    (run answer (drive cfg p (slots.flatMap Slot.original)) before =
        run answer (drive cfg p (slots.flatMap Slot.replaced)) before ∨
      (run answer (drive cfg p (slots.flatMap Slot.original)) before).2.1 ≠ 0 ∧
        (run answer (drive cfg p (slots.flatMap Slot.replaced)) before).2.1 ≠ 0) ∧
    ∀ l, l <+: slots.flatMap Slot.replaced →
      (run answer (drive cfg p l) before).2.2.state ≠ .invalid := by
  induction slots generalizing p before with
  | nil =>
    refine ⟨.inl rfl, fun l hl => ?_⟩
    obtain rfl := List.prefix_nil.mp hl
    exact hp
  | cons slot slots ih =>
    cases slot with
    | kept calls =>
      have hcalls : Ordinary calls := hslots calls (by simp)
      have hvalid {l : List (LexerCall δ)} (hl : l <+: calls) :
          (run answer (drive cfg p l) before).2.2.state ≠ .invalid :=
        run_ordinary_valid hA hp hcalls hl
      simp only [List.flatMap_cons, Slot.original, Slot.replaced]
      by_cases hz : (run answer (drive cfg p calls) before).2.1 = 0
      · obtain ⟨hsame, hstart⟩ := ih (fun c hc => hslots c (List.mem_cons_of_mem _ hc))
          (hvalid (List.prefix_refl _)) (misplaced_kept.mp h hz)
        refine ⟨?_, fun l hl => ?_⟩
        · rw [run_drive_append_ok hz, run_drive_append_ok hz]
          exact hsame.imp (fun heq => by rw [heq]) id
        · obtain ⟨m, hm⟩ := hl
          rcases List.append_eq_append_iff.mp hm with ⟨as, hl, -⟩ | ⟨bs, rfl, hbs⟩
          · exact hvalid ⟨as, hl.symm⟩
          · rw [run_drive_append_ok hz]
            exact hstart bs ⟨m, hbs.symm⟩
      · refine ⟨.inr ?_, fun l hl => ?_⟩
        · rw [run_drive_append_failed hz, run_drive_append_failed hz]
          exact ⟨hz, hz⟩
        · obtain ⟨m, hm⟩ := hl
          rcases List.append_eq_append_iff.mp hm with ⟨as, hl, -⟩ | ⟨bs, rfl, -⟩
          · exact hvalid ⟨as, hl.symm⟩
          · rw [run_drive_append_failed hz]
            exact hvalid (List.prefix_refl _)
    | integer value position big =>
      have hawaits := (misplaced_integer hA hp).mp h
      refine ⟨.inr ⟨run_tokeni_refused hA hp hawaits value position _,
        (run_tokenbn_refused hA hp hawaits big.position big.initialValue _).1⟩, fun l hl => ?_⟩
      rcases l with _ | ⟨f, l⟩
      · exact hp
      · obtain ⟨rfl, -⟩ := List.cons_prefix_cons.mp hl
        rw [(run_tokenbn_refused hA hp hawaits big.position big.initialValue l).2]
        exact hp

variable [DoubleArith δ]

theorem bignum_role_iff (hslots : ∀ calls, .kept calls ∈ slots → Ordinary calls) :
    SameRole cfg answer slots ↔ Misplaced cfg answer slots (.zero cfg) [] := by
  have hzero : (Parser.zero cfg).state ≠ .invalid := nofun
  rw [SameRole, sameRun_iff hA hslots hzero]
  refine ⟨And.left, fun h => ?_⟩
  obtain ⟨hsame, hstart⟩ := run_misplaced hA hslots hzero h
  refine ⟨h, ?_, hstart⟩
  rw [finishAfter, finishAfter, run_bind, run_bind]
  rcases hsame with heq | ⟨hz, hz'⟩
  · rw [heq]
  · rw [if_pos hz, if_pos hz']
    exact ⟨fun h => absurd h hz, fun h => absurd h hz'⟩

end Replacement

def Config.withBignum : Config := { Config.default with bignum := true }

/-- The tokens of an array with one integer, and a big number in its place. -/
def oneElement : List (Slot ℚ) :=
  [.kept [.token .openBracket .null], .integer 9 .null ⟨.null, 9, [(.null, [57])], .null⟩,
    .kept [.token .closeBracket .null]]

theorem bignum_role_iff_oneElement :
    SameRole .withBignum (accept UserCall.isError) oneElement ↔
      Misplaced .withBignum (accept UserCall.isError) oneElement (.zero .withBignum) [] :=
  bignum_role_iff (accepting_accept _) fun calls h => by
    simp only [oneElement, List.mem_cons, Slot.kept.injEq, reduceCtorEq, List.not_mem_nil, or_false,
      false_or] at h
    rcases h with rfl | rfl
    · exact .token _ _
    · exact .token _ _

theorem bignum_element_invalid : ¬SameRole .withBignum (accept UserCall.isError) oneElement := by
  intro h
  have hstart : [.token .openBracket .null, .tokenbnBegin .null 9, .tokenbn .null [57],
      .tokenbnEnd .null] <+: oneElement.flatMap Slot.replaced := ⟨[.token .closeBracket .null], rfl⟩
  exact h.2.2 _ hstart (by decide)

end Embedjson
