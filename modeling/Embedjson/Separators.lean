import Embedjson.RejectedTokens
import Embedjson.StackLimits

namespace Embedjson

open Foundations Foundations.Program

variable {δ : Type} {cfg : Config} {p q : Parser} {s : List StackValue} {f g : LexerCall δ}
  {l : List (LexerCall δ)} {us : List (UserCall δ)} {r : ℤ}

/-- A dynamic stack grows when the parser asks for it, no access leaves it, and `stack_size` can count
its bits. -/
def InMemory (cfg : Config) (calls : List (LexerCall δ)) : Prop :=
  cfg.dynamicStack = true → (∀ n, cfg.growth n ≠ []) ∧
    ∀ l us q, l <+: calls → feed UserCall.isError (onLexerCall cfg) l (.zero cfg) = (us, some q) →
      q.broken = false ∧ 8 * q.stackCapacity < 2 ^ 64

/-- The call ends a value. A string that stands for a key does not. -/
def CompletesValue (p : Parser) : LexerCall δ → Prop
  | .token .true _ | .token .false _ | .token .null _ => True
  | .token .closeCurlyBracket _ | .token .closeBracket _ => True
  | .tokeni _ _ | .tokenf _ _ => True
  | .tokencEnd _ => afterValue p.state ≠ none
  | _ => False

def LexerCall.BeginsToken : LexerCall δ → Prop
  | token _ _ | tokencBegin _ | tokeni _ _ | tokenf _ _ => True
  | _ => False

def LexerCall.isNumber : LexerCall δ → Bool
  | tokeni _ _ | tokenf _ _ => Bool.true
  | _ => Bool.false

def ClosesEmptyArray (p : Parser) (f : LexerCall δ) : Prop :=
  p.state = .maybeArrayValue ∧ ∃ position, f = .token .closeBracket position

section Stacks

lemma roomy_of_accepted (hdynamic : cfg.dynamicStack = true) (h : Stacked p s)
    (hcapacity : 8 * p.stackCapacity < 2 ^ 64)
    (ho : observe UserCall.isError (onLexerCall cfg f p) = (us, some (r, q)))
    (hsound : q.broken = false) : Roomy p f := by
  intro hf
  obtain ⟨value, u, state, heq, -⟩ := onLexerCall_opens cfg s hf
  have hsize := h.bounds.size
  by_contra hroom
  have hfull : stackFull cfg p = false := by
    rw [stackFull_dynamic hdynamic]
    exact decide_eq_false (by omega)
  have hrun := ((onLexerCall_relaysCode f p).run_accepting
    (accepting_accept UserCall.isError) []).2.1 _ (congrArg Prod.snd ho)
  have hbroken : _ = (pushBit p value).broken :=
    (run_openContainer (accept UserCall.isError) [] state hfull u).1
  rw [← heq, hrun, broken_pushBit h.bounds.length (by omega)] at hbroken
  rw [hbroken] at hsound
  cases hsound

lemma feed_stacked {b : Bool} (hdynamic : cfg.dynamicStack = true) (hmemory : InMemory cfg l)
    (horder : l.foldlM phase false = some b)
    (ho : feed UserCall.isError (onLexerCall cfg) l (.zero cfg) = (us, some q)) :
    Stacked q (l.foldl nesting []) ∧ (b = true → afterString q.state ≠ none) := by
  induction l using List.reverseRecOn generalizing b us q with
  | nil =>
    cases horder
    cases ho
    exact ⟨stacked_zero hdynamic, nofun⟩
  | append_singleton l f ih =>
    obtain ⟨hgrowth, hbounds⟩ := hmemory hdynamic
    obtain ⟨c, hl, hf⟩ := phase_concat horder
    obtain ⟨vs, t, ws, r, hfeed, hstep, -⟩ := feed_concat_some ho
    have hstart : l <+: l ++ [f] := List.prefix_append l [f]
    obtain ⟨hstacked, hinside⟩ :=
      ih (fun _ => ⟨hgrowth, fun m us q hm => hbounds m us q (hm.trans hstart)⟩) hl hfeed
    have hroom := roomy_of_accepted hdynamic hstacked (hbounds l vs t hstart hfeed).2 hstep
      (hbounds (l ++ [f]) us q List.prefix_rfl ho).1
    have hleaves := (onLexerCall_ensures hdynamic hgrowth hstacked hinside hf hroom).observe hstep
    rw [List.foldl_append]
    exact hleaves.succeeded ((onLexerCall_relaysCode f t).observe_eq hstep)

lemma feed_open {b : Bool} (hmemory : InMemory cfg l) (horder : l.foldlM phase false = some b)
    (ho : feed UserCall.isError (onLexerCall cfg) l (.zero cfg) = (us, some q)) :
    q.values = l.foldl nesting [] ∧ Conf.Wf ⟨q.state, l.foldl nesting []⟩ := by
  cases hdynamic : cfg.dynamicStack with
  | true =>
    obtain ⟨hstacked, -⟩ := feed_stacked hdynamic hmemory horder ho
    exact ⟨hstacked.values, hstacked.wf⟩
  | false =>
    have hzero := represents_zero cfg hdynamic
    have hsettled : Settled cfg false (.zero cfg) := ⟨.zero, hzero, rfl, nofun⟩
    obtain ⟨c, hr, hc, -⟩ := hsettled.feed hdynamic horder ho
    have htracks : Tracks cfg q (l.foldl nesting []) := feed_tracks hdynamic (.inr ⟨hzero, rfl⟩) ho
    obtain ⟨hr', hc'⟩ := htracks.resolve_left (hr.harmless hc).valid
    exact ⟨hr'.stack, hc'⟩

end Stacks

section Completions

lemma stateAfterClose_state (underCurly : ParserState) (p : Parser) :
    (stateAfterClose underCurly p).state = .done ∨
      (stateAfterClose underCurly p).state = .maybeArrayComma ∨
      (stateAfterClose underCurly p).state = underCurly := by
  rw [stateAfterClose]
  split_ifs
  · exact .inl rfl
  · exact .inr (.inr rfl)
  · exact .inr (.inl rfl)

lemma observe_closeContainer {value : StackValue} {u : UserCall δ} {underCurly : ParserState}
    {position : Pointer} (hu : u.isError = false)
    (ho : observe UserCall.isError (closeContainer cfg p value u underCurly position) =
      (us, some (r, q))) : q = stateAfterClose underCurly (stackPop p) := by
  rw [closeContainer] at ho
  split_ifs at ho
  · cases ho
  · rw [Parser.returnIf, observe_call_of_notMem hu, if_neg (not_not_intro rfl)] at ho
    cases ho
    rfl

lemma observe_primitive {u : UserCall δ} {state : ParserState} (hu : u.isError = false)
    (ho : observe UserCall.isError (primitive p u state) = (us, some (r, q))) : q.state = state := by
  rw [primitive, Parser.returnIf, observe_call_of_notMem hu, if_neg (not_not_intro rfl)] at ho
  cases ho
  rfl

def EndsState (state : ParserState) : Prop :=
  state = .invalid ∨ state = .done ∨ state = .maybeArrayComma ∨ state = .maybeObjectComma

lemma endsState_closed (p : Parser) :
    EndsState (stateAfterClose .maybeObjectComma p).state :=
  .inr (stateAfterClose_state _ p)

lemma endsState_number {u : UserCall δ} {position : Pointer} (hu : u.isError = false)
    (hvalid : p.state ≠ .invalid)
    (ho : observe UserCall.isError (numberToken cfg p u position) = (us, some (r, q))) :
    EndsState q.state := by
  have hgo {state : ParserState} (hstate : EndsState state)
      (ho : observe UserCall.isError (returnCall u { p with state := state }) = (us, some (r, q))) :
      EndsState q.state := by
    cases (observe_returnCall hu _).symm.trans ho
    exact hstate
  rw [numberToken] at ho
  cases hs : p.state <;> rw [hs] at ho
  case expectValue => exact hgo (.inr (.inl rfl)) ho
  case expectObjectValue => exact hgo (.inr (.inr (.inr rfl))) ho
  case maybeArrayValue => exact hgo (.inr (.inr (.inl rfl))) ho
  case expectArrayValue => exact hgo (.inr (.inr (.inl rfl))) ho
  case invalid => exact absurd hs hvalid
  all_goals cases ho

lemma endsState_primitive {t : Tok} {position : Pointer} (ht : t = .true ∨ t = .false ∨ t = .null)
    (hvalid : p.state ≠ .invalid)
    (ho : observe UserCall.isError (embedjsonToken (δ := δ) cfg p t position) = (us, some (r, q))) :
    EndsState q.state := by
  have hgo {state : ParserState} {k : ParserProgram δ} (hstate : EndsState state)
      (ho : observe UserCall.isError (valueToken cfg p t position state k) = (us, some (r, q))) :
      EndsState q.state := by
    rcases ht with rfl | rfl | rfl <;> exact (observe_primitive rfl ho) ▸ hstate
  rw [embedjsonToken] at ho
  cases hs : p.state <;> rw [hs] at ho
  case expectValue => exact hgo (.inr (.inl rfl)) ho
  case expectObjectValue => exact hgo (.inr (.inr (.inr rfl))) ho
  case maybeArrayValue => exact hgo (.inr (.inr (.inl rfl))) ho
  case expectArrayValue => exact hgo (.inr (.inr (.inl rfl))) ho
  case invalid => exact absurd hs hvalid
  all_goals rcases ht with rfl | rfl | rfl <;> cases ho

lemma endsState_bracket {t : Tok} {position : Pointer}
    (ht : t = .closeCurlyBracket ∨ t = .closeBracket)
    (hvalid : p.state ≠ .invalid)
    (hempty : ¬ClosesEmptyArray p (.token t position : LexerCall δ))
    (ho : observe UserCall.isError (embedjsonToken (δ := δ) cfg p t position) = (us, some (r, q))) :
    EndsState q.state := by
  have hgo {value : StackValue} {u : UserCall δ} (hu : u.isError = false)
      (ho : observe UserCall.isError (closeContainer cfg p value u .maybeObjectComma position) =
        (us, some (r, q))) : EndsState q.state := by
    rw [observe_closeContainer hu ho]
    exact endsState_closed _
  rw [embedjsonToken] at ho
  cases hs : p.state <;> rw [hs] at ho
  case invalid => exact absurd hs hvalid
  case maybeArrayValue =>
    rcases ht with rfl | rfl
    · cases ho
    · exact absurd ⟨hs, position, rfl⟩ hempty
  all_goals
    rcases ht with rfl | rfl
    · first
        | exact hgo rfl ho
        | cases ho
    · first
        | exact hgo rfl ho
        | cases ho

lemma endsState_string {position : Pointer} (hs : afterValue p.state ≠ none)
    (ho : observe UserCall.isError (embedjsonTokencEnd (δ := δ) cfg p position) = (us, some (r, q))) :
    EndsState q.state := by
  cases (observe_returnCall rfl _).symm.trans (observe_checkState (observe_checkState ho))
  rw [lookupNextState]
  cases hp : p.state <;> rw [hp] at hs
  case expectValue => exact .inr (.inl rfl)
  case expectObjectValue => exact .inr (.inr (.inr rfl))
  case maybeArrayValue => exact .inr (.inr (.inl rfl))
  case expectArrayValue => exact .inr (.inr (.inl rfl))
  all_goals exact absurd rfl hs

lemma endsState_completed (hg : CompletesValue p g) (hempty : ¬ClosesEmptyArray p g)
    (ho : observe UserCall.isError (onLexerCall cfg g p) = (us, some (r, q))) :
    EndsState q.state := by
  by_cases hvalid : p.state = .invalid
  · exact .inl (observe_invalid hvalid ho)
  cases g with
  | token t position =>
    cases t with
    | true => exact endsState_primitive (.inl rfl) hvalid ho
    | false => exact endsState_primitive (.inr (.inl rfl)) hvalid ho
    | null => exact endsState_primitive (.inr (.inr rfl)) hvalid ho
    | closeCurlyBracket => exact endsState_bracket (.inl rfl) hvalid hempty ho
    | closeBracket => exact endsState_bracket (.inr rfl) hvalid hempty ho
    | _ => exact hg.elim
  | tokeni v position | tokenf v position => exact endsState_number rfl hvalid ho
  | tokencEnd position => exact endsState_string hg ho
  | _ => exact hg.elim

lemma state_of_emptyArray (hempty : ClosesEmptyArray p g)
    (ho : observe UserCall.isError (onLexerCall cfg g p) = (us, some (r, q))) :
    q.state = .done ∨ q.state = .maybeArrayComma ∨ q.state = .maybeObjectKey := by
  obtain ⟨hs, position, rfl⟩ := hempty
  rw [onLexerCall, embedjsonToken, hs] at ho
  have hq : q = stateAfterClose .maybeObjectKey (stackPop p) :=
    observe_closeContainer (u := .arrayEnd) rfl ho
  rw [hq]
  exact stateAfterClose_state _ _

end Completions

section Codes

variable {top : StackValue} {rest : List StackValue} {code : ErrorCode} {position : Pointer}

lemma closeContainer_accepts (hvalues : p.values = top :: rest) {u : UserCall δ}
    (hu : u.isError = false) (underCurly : ParserState) (position : Pointer) :
    (observe UserCall.isError (closeContainer cfg p top u underCurly position)).2 ≠ none := by
  have hcheck : ¬(cfg.debug ∧ (stackEmpty p ∨ stackTop p ≠ top)) := by
    rintro ⟨-, hempty | htop⟩
    · simp [stackEmpty, stackSize_values hvalues] at hempty
    · exact htop (stackTop_values hvalues)
  rw [closeContainer, if_neg hcheck, Parser.returnIf, observe_call_of_notMem hu,
    if_neg (not_not_intro rfl)]
  exact Option.some_ne_none _

/-- The code behind a member: the numbers get the one of an array. -/
lemma code_behind_member (hf : f.BeginsToken) (hs : p.state = .maybeObjectComma)
    (hvalues : p.values = .curly :: rest)
    (ho : observe UserCall.isError (onLexerCall cfg f p) = ([.error code position], none)) :
    code = if f.isNumber then .expCommaOrCloseBracket else .expCommaOrCloseCurly := by
  cases f with
  | token t position' =>
    rw [onLexerCall, embedjsonToken, hs] at ho
    cases t with
    | closeCurlyBracket => exact absurd (congrArg Prod.snd ho) (closeContainer_accepts hvalues rfl _ _)
    | _ =>
      cases ho
      try rfl
  | tokeni v position' | tokenf v position' =>
    simp only [onLexerCall, embedjsonTokeni, embedjsonTokenf, numberToken, hs] at ho
    cases ho
    rfl
  | tokencBegin position' =>
    rw [onLexerCall, embedjsonTokencBegin, hs] at ho
    cases ho
    rfl
  | _ => exact hf.elim

/-- The code behind an element: the numbers get the one of an object. -/
lemma code_behind_element (hf : f.BeginsToken) (hs : p.state = .maybeArrayComma)
    (hvalues : p.values = .square :: rest)
    (ho : observe UserCall.isError (onLexerCall cfg f p) = ([.error code position], none)) :
    code = if f.isNumber then .expCommaOrCloseCurly else .expCommaOrCloseBracket := by
  cases f with
  | token t position' =>
    rw [onLexerCall, embedjsonToken, hs] at ho
    cases t with
    | closeBracket => exact absurd (congrArg Prod.snd ho) (closeContainer_accepts hvalues rfl _ _)
    | _ =>
      cases ho
      try rfl
  | tokeni v position' | tokenf v position' =>
    simp only [onLexerCall, embedjsonTokeni, embedjsonTokenf, numberToken, hs] at ho
    cases ho
    rfl
  | tokencBegin position' =>
    rw [onLexerCall, embedjsonTokencBegin, hs] at ho
    cases ho
    rfl
  | _ => exact hf.elim

/-- Where a key may stand, no code names a comma. -/
lemma code_behind_emptyArray (hf : f.BeginsToken) (hs : p.state = .maybeObjectKey)
    (hvalues : p.values = .curly :: rest)
    (ho : observe UserCall.isError (onLexerCall cfg f p) = ([.error code position], none)) :
    code = .expObjectKey ∨ code = .expObjectKeyOrCloseCurly := by
  cases f with
  | token t position' =>
    rw [onLexerCall, embedjsonToken, hs] at ho
    cases t with
    | closeCurlyBracket => exact absurd (congrArg Prod.snd ho) (closeContainer_accepts hvalues rfl _ _)
    | _ =>
      cases ho
      exact .inl rfl
  | tokeni v position' | tokenf v position' =>
    simp only [onLexerCall, embedjsonTokeni, embedjsonTokenf, numberToken, hs] at ho
    cases ho
    exact .inr rfl
  | tokencBegin position' =>
    rw [onLexerCall, embedjsonTokencBegin, hs] at ho
    cases ho
  | _ => exact hf.elim

end Codes

/-- The code names the innermost container. -/
def NamesContainer (code : ErrorCode) (top : StackValue) : Prop :=
  (code = .expCommaOrCloseCurly ↔ top = .curly) ∧ (code = .expCommaOrCloseBracket ↔ top = .square)

/-- Behind a complete member or element the code for a refused token names the right container, unless
the token is a number or the value an empty array in an object. -/
theorem separator_code_iff {p' : Parser} {us' : List (UserCall δ)} {top : StackValue}
    {rest : List StackValue} {code : ErrorCode} {position : Pointer}
    (horder : InOrder false (l ++ [g])) (hmemory : InMemory cfg (l ++ [g]))
    (hl : feed UserCall.isError (onLexerCall cfg) l (.zero cfg) = (us, some p))
    (hg : observe UserCall.isError (onLexerCall cfg g p) = (us', some (r, p')))
    (hvalue : CompletesValue p g) (hopen : (l ++ [g]).foldl nesting [] = top :: rest)
    (hf : f.BeginsToken)
    (hrefused : observe UserCall.isError (onLexerCall cfg f p') = ([.error code position], none)) :
    NamesContainer code top ↔ f.isNumber = false ∧ ¬(ClosesEmptyArray p g ∧ top = .curly) := by
  obtain ⟨b, horder⟩ := horder
  have hfeed : feed UserCall.isError (onLexerCall cfg) (l ++ [g]) (.zero cfg) = (us ++ us', some p') := by
    rw [feed_concat hl, hg]
    rfl
  obtain ⟨hvalues, hwf⟩ := feed_open hmemory horder hfeed
  rw [hopen] at hvalues hwf
  by_cases hempty : ClosesEmptyArray p g
  · rcases state_of_emptyArray hempty hg with hs | hs | hs <;> rw [hs] at hwf
    · cases hwf
    · obtain ⟨_, ⟨⟩⟩ := hwf
      have hcode := code_behind_element hf hs hvalues hrefused
      cases hnumber : f.isNumber <;> rw [hnumber] at hcode <;> simp [NamesContainer, hcode]
    · obtain ⟨_, ⟨⟩⟩ := hwf
      rcases code_behind_emptyArray hf hs hvalues hrefused with rfl | rfl <;>
        simp [NamesContainer, hempty]
  · rcases endsState_completed hvalue hempty hg with hs | hs | hs | hs <;> rw [hs] at hwf
    · exact hwf.elim
    · cases hwf
    · obtain ⟨_, ⟨⟩⟩ := hwf
      have hcode := code_behind_element hf hs hvalues hrefused
      cases hnumber : f.isNumber <;> rw [hnumber] at hcode <;> simp [NamesContainer, hcode]
    · obtain ⟨_, ⟨⟩⟩ := hwf
      have hcode := code_behind_member hf hs hvalues hrefused
      cases hnumber : f.isNumber <;> rw [hnumber] at hcode <;> simp [NamesContainer, hcode, hempty]

/-- In `[1 2]` the number 2 is refused as if an object were open. -/
theorem number_misnames_container :
    observe UserCall.isError (embedjsonPush (δ := ℚ) .default (.zero .default)
        ("[1 2]".toList.map Char.toUInt8)) =
      ([.arrayBegin, .int 1, .error .expCommaOrCloseCurly (.buffer 3)], none) ∧
      ¬NamesContainer .expCommaOrCloseCurly .square := by
  refine ⟨by decide +kernel, ?_⟩
  rintro ⟨hcurly, -⟩
  exact absurd (hcurly.mp rfl) nofun

theorem separator_code_iff_keyword :
    NamesContainer .expCommaOrCloseBracket .square := by
  have horder : InOrder false ([.token .openBracket .null] ++ [.tokeni 1 .null] : List (LexerCall ℚ)) :=
    ⟨false, rfl⟩
  have hmemory : InMemory .default
      ([.token .openBracket .null] ++ [.tokeni 1 .null] : List (LexerCall ℚ)) := nofun
  exact (separator_code_iff (f := .token .null .null) horder hmemory rfl rfl trivial rfl trivial rfl).mpr
    ⟨rfl, nofun⟩

end Embedjson
