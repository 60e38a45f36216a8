import Embedjson.Parser.Chunking

namespace Embedjson

open Foundations Foundations.Program

variable {δ : Type} [DoubleArith δ]

/-- One more push of a single space, and then the end of the input. -/
def finalizeAfterSpace (cfg : Config) (p : Parser) : ParserProgram δ :=
  (embedjsonPush cfg p [' '.toUInt8]).bind fun a =>
    if a.1 ≠ 0 then .done a else embedjsonFinalize cfg a.2

/-- Two ways to end that succeed together, and then with the same callbacks. -/
def SameEnd (x y : List (UserCall δ) × ℤ × Parser) : Prop :=
  (x.2.1 = 0 ↔ y.2.1 = 0) ∧ (x.2.1 = 0 → y.2.1 = 0 → x.1 = y.1)

/-- A fraction or an exponent without digits. -/
def Lexer.Unfinished (lex : Lexer) : Prop :=
  (lex.state = .inNumberFrac ∧ lex.fracPower = 0) ∨
    (lex.state = .inNumberExp ∧ lex.expNotEmpty = false)

instance (lex : Lexer) : Decidable lex.Unfinished := inferInstanceAs (Decidable (_ ∨ _))

section Lexer

variable {cfg : Config} {lex : Lexer}

/-- The calls for what a space completes. Without a result the space is refused, or it belongs to a
string. -/
def delimited (cfg : Config) (lex : Lexer) : Option (List (LexerCall δ)) :=
  match lex.state with
  | .lookupToken => some []
  | .inNumber => some [.tokeni (signedInt cfg lex) .null]
  | .inNumberFrac =>
    if lex.fracPower = 0 then none else some [.tokenf (negateIf lex.minus (fracDouble lex)) .null]
  | .inNumberExp =>
    if ¬lex.expNotEmpty then none
    else some [.tokenf (negateIf lex.minus (scaleByExp lex (fracDouble lex))) .null]
  | .inBigNumber => some [.tokenbnEnd .null]
  | _ => none

lemma finalDouble_eq (lex : Lexer) : (finalDouble lex : δ) = fracDouble lex :=
  DoubleArith.add_comm _ _

omit [DoubleArith δ] in
lemma ofKeyword_space {keyword : String} {code : ErrorCode} {tok : Tok} {last : ℕ} {at_ : Pointer}
    (h : ' '.toUInt8 ∉ keyword.toList.map Char.toUInt8 ++ [0]) :
    (Reaction.ofKeyword keyword code tok last lex at_ ' '.toUInt8 : Reaction δ) = .reject code :=
  if_pos fun hb => h (List.mem_of_getElem? hb.symm)

lemma scanStep_space (cfg : Config) (lex : Lexer) :
    match (delimited cfg lex : Option (List (LexerCall δ))) with
    | some calls => ∃ calls' s, scanStep cfg ⟨lex, 0⟩ ' '.toUInt8 = (calls', .ok s) ∧
        calls'.map LexerCall.forget = calls ∧ s.lex.state = .lookupToken
    | none => (∃ calls code, scanStep (δ := δ) cfg ⟨lex, 0⟩ ' '.toUInt8 = (calls, .error code)) ∨
        ∃ calls s, scanStep (δ := δ) cfg ⟨lex, 0⟩ ' '.toUInt8 = (calls, .ok s) ∧
          s.lex.state = .inString := by
  obtain ⟨magic, read, encoding, hm⟩ := recordMagic_eq lex ' '.toUInt8
  -- A number that the space completes, and the second look at the space.
  have hunread {calls : List (LexerCall δ)} {lex' : Lexer}
      (hr : react cfg (recordMagic lex ' '.toUInt8) 0 ' '.toUInt8 = .unread calls lex')
      (hs : lex'.state = .lookupToken) :
      ∃ calls' s, scanStep cfg ⟨lex, 0⟩ ' '.toUInt8 = (calls', .ok s) ∧
        calls'.map LexerCall.forget = calls.map LexerCall.forget ∧ s.lex.state = .lookupToken := by
    have hs' : (recordMagic lex' ' '.toUInt8).state = .lookupToken := by rw [recordMagic_state, hs]
    have hr' : (react cfg (recordMagic lex' ' '.toUInt8) 0 ' '.toUInt8 : Reaction δ) =
        .consume [] (recordMagic lex' ' '.toUInt8) := by
      rw [react, hs']
      exact if_pos (.inl rfl)
    exact ⟨_, _, scanStep_unread_consume hr hr', by simp, hs'⟩
  have hreject {code : ErrorCode}
      (hr : (react cfg (recordMagic lex ' '.toUInt8) 0 ' '.toUInt8 : Reaction δ) = .reject code) :
      (∃ calls code, scanStep (δ := δ) cfg ⟨lex, 0⟩ ' '.toUInt8 = (calls, .error code)) ∨
        ∃ calls s, scanStep (δ := δ) cfg ⟨lex, 0⟩ ' '.toUInt8 = (calls, .ok s) ∧
          s.lex.state = .inString := .inl ⟨_, _, scanStep_reject hr⟩
  rw [hm] at hunread hreject
  unfold delimited
  cases hs : lex.state with
  | lookupToken =>
    refine ⟨[], ⟨recordMagic lex ' '.toUInt8, 1⟩, scanStep_consume ?_, rfl, ?_⟩
    · rw [react, recordMagic_state, hs]
      exact if_pos (.inl rfl)
    · rw [recordMagic_state, hs]
  | inNumber => exact hunread (by simp only [react, hs]; rfl) rfl
  | inNumberFrac =>
    by_cases hp : lex.fracPower = 0
    · simp only [if_pos hp]
      exact hreject (by simp only [react, hs, Reaction.ofFrac, if_pos hp]; rfl)
    · simp only [if_neg hp]
      exact hunread (by simp only [react, hs, Reaction.ofFrac, if_neg hp]; rfl) rfl
  | inNumberExp =>
    by_cases hp : ¬lex.expNotEmpty
    · simp only [if_pos hp]
      exact hreject (by simp only [react, hs, Reaction.ofExp, if_pos hp]; rfl)
    · simp only [if_neg hp]
      exact hunread (by simp only [react, hs, Reaction.ofExp, if_neg hp]; rfl) rfl
  | inBigNumber => exact hunread (by simp only [react, hs]; rfl) rfl
  | inString =>
    cases hc : checkUtf8 cfg (recordMagic lex ' '.toUInt8) ' '.toUInt8 with
    | error code =>
      refine .inl ⟨[], code, scanStep_reject ?_⟩
      rw [react, recordMagic_state, hs]
      simp only [Reaction.ofString, hc]
    | ok a =>
      obtain ⟨lex', last⟩ := a
      refine .inr ⟨[charCall ' '.toUInt8], ⟨lex', 1⟩, scanStep_consume ?_, ?_⟩
      · rw [react, recordMagic_state, hs]
        simp only [Reaction.ofString, hc]
        cases last with
        | false => rfl
        | true =>
          dsimp only
          rw [if_neg (by decide), if_neg (by decide), if_neg (fun h => absurd h.2.2 (by decide))]
      · rw [checkUtf8_state hc, recordMagic_state, hs]
  | inStringEscape | inStringUnicodeEscape | inNumberSign | inNumberExpSign =>
    exact hreject (by simp only [react, hs]; rfl)
  | inTrue | inFalse | inNull =>
    exact hreject (by simp only [react, hs]; exact ofKeyword_space (by decide))

variable (cfg) in
lemma observe_lexerFinalize (h : ¬lex.Unfinished) :
    match (delimited cfg lex : Option (List (LexerCall δ))) with
    | some calls =>
      observe LexerCall.isError (embedjsonLexerFinalize cfg lex) = (calls, some 0)
    | none => ∃ code, observe LexerCall.isError (embedjsonLexerFinalize (δ := δ) cfg lex) =
        ([.errorEx code .null], none) := by
  unfold embedjsonLexerFinalize delimited
  cases hs : lex.state with
  | inNumberFrac =>
    have hp : ¬lex.fracPower = 0 := fun hp => h (.inl ⟨hs, hp⟩)
    simp only [if_neg hp, finalDouble_eq]
    rfl
  | inNumberExp =>
    have hp : ¬¬lex.expNotEmpty := fun hp => h (.inr ⟨hs, by simpa using hp⟩)
    simp only [if_neg hp, finalDouble_eq]
    rfl
  | lookupToken | inNumber | inBigNumber => rfl
  | _ => exact ⟨_, rfl⟩

omit [DoubleArith δ] in
lemma isChunk_forget (f : LexerCall δ) : f.forget.isChunk = f.isChunk := by cases f <;> rfl

lemma delimited_plain {calls : List (LexerCall δ)} (h : delimited cfg lex = some calls) :
    ∀ f ∈ calls, f.isChunk = false ∧ f.forget = f := by
  unfold delimited at h
  split at h <;> try split_ifs at h
  all_goals cases h <;> simp [LexerCall.isChunk, LexerCall.forget]

variable (cfg) in
lemma observe_lexerFinalize_unfinished (h : lex.Unfinished) :
    (delimited cfg lex : Option (List (LexerCall δ))) = none ∧
      ∃ v : δ, observe LexerCall.isError (embedjsonLexerFinalize cfg lex) =
        ([.tokenf v .null], some 0) := by
  rcases h with ⟨hs, hp⟩ | ⟨hs, hp⟩
  · exact ⟨by simp [delimited, hs, hp], _, by rw [embedjsonLexerFinalize, hs]; rfl⟩
  · exact ⟨by simp [delimited, hs, hp], _, by rw [embedjsonLexerFinalize, hs]; rfl⟩

end Lexer

section Calls

variable {cfg : Config}

omit [DoubleArith δ] in
lemma map_forget_of_cutAll {base : ℤ} {l m : List (LexerCall δ)} (h : cutAll base l = m)
    (hl : ∀ f ∈ l, f.Nonempty) (hm : ∀ f ∈ m, f.isChunk = false) :
    l.map LexerCall.forget = m.map LexerCall.forget := by
  induction l generalizing m with
  | nil =>
    obtain rfl : m = [] := h.symm
    rfl
  | cons f l ih =>
    obtain ⟨hf, hl⟩ := List.forall_mem_cons.mp hl
    have hchunk : f.isChunk = false := by
      subst h
      cases f with
      | tokenc data bytes =>
        obtain ⟨b, bytes, rfl⟩ := List.exists_cons_of_ne_nil hf
        exact hm (charCall b) (by simp [LexerCall.cut])
      | tokenbn data bytes =>
        obtain ⟨b, bytes, rfl⟩ := List.exists_cons_of_ne_nil hf
        exact hm (bignumCall b) (by simp [LexerCall.cut])
      | _ => rfl
    obtain ⟨g, hg, hfg⟩ := cut_of_not_isChunk base hchunk
    rw [cutAll_cons, hg] at h
    subst h
    rw [List.map_cons, hfg, ih rfl hl fun f hf => hm f (List.mem_cons_of_mem _ hf)]
    rfl

omit [DoubleArith δ] in
variable (cfg) in
lemma run_forget {l m : List (LexerCall δ)} (h : l.map LexerCall.forget = m.map LexerCall.forget)
    (hl : ∀ f ∈ l, f.Nonempty) (p : Parser) (lex : Lexer) :
    List.Forall₂ UserCall.Alike ((parserMachine cfg).run p l).1
        ((parserMachine cfg).run (p.setLexer lex) m).1 ∧
      ((parserMachine cfg).run (p.setLexer lex) m).2 =
        ((parserMachine cfg).run p l).2.map fun t => t.setLexer lex := by
  induction l generalizing m p with
  | nil =>
    obtain rfl : m = [] := by simpa using h.symm
    exact ⟨.nil, rfl⟩
  | cons f l ih =>
    obtain ⟨g, m, rfl, hg, hm⟩ := List.map_eq_cons_iff.mp h.symm
    obtain ⟨hf, hl⟩ := List.forall_mem_cons.mp hl
    obtain ⟨halike, hres⟩ := parserStep_alike cfg hg.symm hf p lex
    rcases hs' : parserStep cfg (p.setLexer lex) g with ⟨vs, r⟩
    rcases hs : parserStep cfg p f with ⟨us, code | q⟩
    · rw [hs, hs'] at halike hres
      obtain rfl : r = .error code := hres
      rw [Transducer.run_cons_error (parserMachine cfg) hs,
        Transducer.run_cons_error (parserMachine cfg) hs']
      exact ⟨halike, rfl⟩
    · rw [hs, hs'] at halike hres
      obtain rfl : r = .ok (q.setLexer lex) := hres
      obtain ⟨hrest, hend⟩ := ih hm.symm hl q
      rw [Transducer.run_cons_ok (parserMachine cfg) hs,
        Transducer.run_cons_ok (parserMachine cfg) hs']
      exact ⟨List.rel_append halike hrest, hend⟩

omit [DoubleArith δ] in
lemma eq_of_alike {us vs : List (UserCall δ)} (h : List.Forall₂ UserCall.Alike us vs)
    (hus : ∀ u ∈ us, u.isError = false) : us = vs := by
  have key (u : UserCall δ) (hu : u.isError = false) : u.forget = u := by
    cases u <;> first | rfl | cases hu
  induction h with
  | nil => rfl
  | @cons u v us vs huv _ ih =>
    obtain ⟨hu, hus⟩ := List.forall_mem_cons.mp hus
    have hv : v.isError = false := huv.isError ▸ hu
    rw [← key u hu, huv.1, key v hv, ih hus]

end Calls

section Ends

variable {cfg : Config} {p : Parser}

variable (cfg) in
lemma observe_finalize_delimited {calls : List (LexerCall δ)} (h : ¬p.lexer.Unfinished)
    (hd : delimited cfg p.lexer = some calls) :
    observe UserCall.isError (embedjsonFinalize cfg p : ParserProgram δ) =
      followedBy (((parserMachine cfg).run p calls).1,
        ((parserMachine cfg).run p calls).2.toOption) endOfInput := by
  have ho := observe_lexerFinalize (δ := δ) cfg h
  rw [hd] at ho
  rw [observe_finalize, feed_eq_run, show observe _ _ = _ from ho]

variable (cfg) in
lemma observe_finalize_undelimited (h : ¬p.lexer.Unfinished)
    (hd : (delimited cfg p.lexer : Option (List (LexerCall δ))) = none) :
    (observe UserCall.isError (embedjsonFinalize cfg p : ParserProgram δ)).2 = none := by
  have ho := observe_lexerFinalize (δ := δ) cfg h
  rw [hd] at ho
  obtain ⟨code, ho⟩ := ho
  rw [observe_finalize, show observe _ _ = _ from ho]
  rfl

lemma observe_finalizeAfterSpace (p : Parser) :
    observe UserCall.isError (finalizeAfterSpace cfg p : ParserProgram δ) =
      followedBy (observe UserCall.isError (embedjsonPush cfg p [' '.toUInt8])) fun a =>
        observe UserCall.isError (if a.1 ≠ 0 then .done a else embedjsonFinalize cfg a.2) :=
  observe_bind _ _

variable (cfg) in
lemma observe_space_delimited {calls : List (LexerCall δ)}
    (hd : delimited cfg p.lexer = some calls) :
    ∃ (l : List (LexerCall δ)) (lex : Lexer),
      l.map LexerCall.forget = calls.map LexerCall.forget ∧ (∀ f ∈ l, f.Nonempty) ∧
      observe UserCall.isError (finalizeAfterSpace cfg p : ParserProgram δ) =
        followedBy (((parserMachine cfg).run p l).1, ((parserMachine cfg).run p l).2.toOption)
          fun q => endOfInput (q.setLexer lex) := by
  have hspace := scanStep_space (δ := δ) cfg p.lexer
  rw [hd] at hspace
  obtain ⟨calls', s, hstep, hcalls, hstate⟩ := hspace
  have hagree := embedjsonLexerPush_agrees (δ := δ) cfg p.lexer 0 [' '.toUInt8]
  rw [Transducer.run_singleton, show (scanner cfg).step _ _ = _ from hstep] at hagree
  rw [observe_finalizeAfterSpace, observe_push, feed_eq_run]
  generalize observe LexerCall.isError
    (embedjsonLexerPush (δ := δ) cfg [' '.toUInt8] p.lexer) = x at hagree
  obtain ⟨l, r⟩ := x
  obtain ⟨hne, rfl, -, hcut⟩ := hagree
  refine ⟨l, s.lex, ?_, hne, ?_⟩
  · have hplain := delimited_plain hd
    rw [map_forget_of_cutAll hcut hne fun f hf => ?_, hcalls]
    · exact ((List.map_congr_left fun f hf => (hplain f hf).2).trans (List.map_id calls)).symm
    · rw [← isChunk_forget]
      exact (hplain _ (hcalls ▸ List.mem_map_of_mem hf)).1
  · rw [followedBy_assoc]
    refine congrArg _ (funext fun q => ?_)
    have hu : ¬(q.setLexer s.lex).lexer.Unfinished := by
      simp [Lexer.Unfinished, Parser.setLexer, hstate]
    have hd : delimited (δ := δ) cfg (q.setLexer s.lex).lexer = some [] := by
      simp [delimited, Parser.setLexer, hstate]
    have hend := observe_finalize_delimited cfg hu hd
    rw [show (some (0, s.lex) : Option (ℤ × Lexer)).map (fun a => (a.1, q.setLexer a.2)) =
      some (0, q.setLexer s.lex) from rfl, followedBy_some, if_neg (not_not_intro rfl), hend]
    rfl

variable (cfg) in
lemma observe_space_undelimited
    (hd : (delimited cfg p.lexer : Option (List (LexerCall δ))) = none) :
    (observe UserCall.isError (finalizeAfterSpace cfg p : ParserProgram δ)).2 = none := by
  have hspace := scanStep_space (δ := δ) cfg p.lexer
  rw [hd] at hspace
  have hagree := embedjsonLexerPush_agrees (δ := δ) cfg p.lexer 0 [' '.toUInt8]
  rw [Transducer.run_singleton] at hagree
  rw [observe_finalizeAfterSpace, observe_push, feed_eq_run]
  generalize observe LexerCall.isError
    (embedjsonLexerPush (δ := δ) cfg [' '.toUInt8] p.lexer) = x at hagree
  obtain ⟨l, r⟩ := x
  rw [followedBy_assoc]
  rcases (parserMachine cfg).run p l with ⟨us, code | q⟩
  · rfl
  rcases hspace with ⟨calls, code, hstep⟩ | ⟨calls, s, hstep, hstate⟩
  · rw [show (scanner cfg).step _ _ = _ from hstep] at hagree
    obtain ⟨-, rfl, -⟩ := hagree
    rfl
  · rw [show (scanner cfg).step _ _ = _ from hstep] at hagree
    obtain ⟨-, rfl, -⟩ := hagree
    have hend := observe_finalize_undelimited (δ := δ) cfg (p := q.setLexer s.lex)
      (by simp [Lexer.Unfinished, Parser.setLexer, hstate]) (by simp [delimited, Parser.setLexer, hstate])
    exact hend

variable (cfg) in
lemma observe_finalize_number {v : δ}
    (ho : observe LexerCall.isError (embedjsonLexerFinalize cfg p.lexer) =
      ([.tokenf v .null], some 0)) :
    (observe UserCall.isError (embedjsonFinalize cfg p : ParserProgram δ)).2 = none ↔
      p.state ≠ .expectValue := by
  rw [observe_finalize, ho]
  simp only [feed_cons, feed_nil, onLexerCall, embedjsonTokenf, numberToken]
  cases hs : p.state with
  | invalid =>
    cases cfg.debug <;> simp [returnErrorEx, returnCall, succeed, observe, UserCall.isError,
      endOfInput, followedBy, hs]
  | _ =>
    simp [returnErrorEx, returnCall, observe, UserCall.isError, endOfInput, followedBy]

end Ends

section Runs

variable {cfg : Config} {p : Parser} {answer : List (UserCall δ) → UserCall δ → ℤ}

lemma finalizeAfterSpace_relaysCode (p : Parser) :
    RelaysCode (finalizeAfterSpace cfg p : ParserProgram δ) :=
  (embedjsonPush_relaysCode p _).andThen fun a => embedjsonFinalize_relaysCode a.2

omit [DoubleArith δ] in
lemma sameEnd_iff (hA : Accepting UserCall.isError answer) {m k : ParserProgram δ}
    (hm : RelaysCode m) (hk : RelaysCode k) (history history' : List (UserCall δ)) :
    SameEnd (run answer m history) (run answer k history') ↔
      ((observe UserCall.isError m).2 = none ↔ (observe UserCall.isError k).2 = none) ∧
        ((observe UserCall.isError m).2 ≠ none → (observe UserCall.isError k).2 ≠ none →
          (observe UserCall.isError m).1 = (observe UserCall.isError k).1) := by
  have hzero {n : ParserProgram δ} (hn : RelaysCode n) (history : List (UserCall δ)) :
      (run answer n history).1 = (observe UserCall.isError n).1 ∧
        ((run answer n history).2.1 = 0 ↔ (observe UserCall.isError n).2 ≠ none) := by
    obtain ⟨h₁, h₂, h₃⟩ := hn.run_accepting hA history
    refine ⟨h₁, ?_⟩
    cases ho : (observe UserCall.isError n).2 with
    | none => simpa using h₃ ho
    | some a =>
      have ha : a.1 = 0 := hn.observe_eq (Prod.ext rfl ho)
      simp [h₂ a ho, ha]
  obtain ⟨hm₁, hm₂⟩ := hzero hm history
  obtain ⟨hk₁, hk₂⟩ := hzero hk history'
  rw [SameEnd, hm₁, hk₁, hm₂, hk₂, not_iff_not]

/-- The end of the input is as good as a delimiter except behind a number that lacks the digits of its
fraction or exponent and is the whole document. -/
theorem finalize_sameEnd_iff (hA : Accepting UserCall.isError answer)
    (history history' : List (UserCall δ)) :
    SameEnd (run answer (embedjsonFinalize cfg p) history)
        (run answer (finalizeAfterSpace cfg p) history') ↔
      ¬(p.state = .expectValue ∧ p.lexer.Unfinished) := by
  rw [sameEnd_iff hA (embedjsonFinalize_relaysCode p) (finalizeAfterSpace_relaysCode p)]
  by_cases hu : p.lexer.Unfinished
  · obtain ⟨hd, v, ho⟩ := observe_lexerFinalize_unfinished (δ := δ) cfg hu
    have hspace := observe_space_undelimited (δ := δ) cfg hd
    have hnumber := observe_finalize_number cfg ho
    by_cases hs : p.state = .expectValue
    · simp [hspace, hnumber.not.mpr (not_not_intro hs), hs, hu]
    · simp [hspace, hnumber.mpr hs, hs]
  · simp only [hu, and_false, not_false_eq_true, iff_true]
    cases hd : (delimited cfg p.lexer : Option (List (LexerCall δ))) with
    | none =>
      have hfinal := observe_finalize_undelimited (δ := δ) cfg hu hd
      simp [hfinal, observe_space_undelimited (δ := δ) cfg hd]
    | some calls =>
      obtain ⟨l, lex, hl, hne, hspace⟩ := observe_space_delimited (δ := δ) cfg hd
      rw [observe_finalize_delimited cfg hu hd, hspace]
      obtain ⟨halike, hres⟩ := run_forget cfg hl hne p p.lexer
      rw [show p.setLexer p.lexer = p from rfl] at halike hres
      rcases hm : (parserMachine cfg).run p calls with ⟨vs, r⟩
      rcases hk : (parserMachine cfg).run p l with ⟨us, code | q⟩
      · rw [hm, hk] at hres
        obtain rfl : r = .error code := hres
        simp [Except.toOption]
      · rw [hm, hk] at hres halike
        obtain rfl : r = .ok (q.setLexer p.lexer) := hres
        have huv : us = vs := eq_of_alike halike (parserMachine_run_ok hk)
        by_cases hs : q.state = .done <;>
          simp [Except.toOption, endOfInput, Parser.setLexer, hs, huv]

end Runs

def behindText (text : String) : ℤ × Parser :=
  (run (accept UserCall.isError)
    (embedjsonPush (δ := ℚ) .default (.zero .default) (text.toList.map Char.toUInt8)) []).2

/-- The text can be pushed, and then both ends succeed together. -/
def EndsAlike (text : String) : Prop :=
  (behindText text).1 = 0 ∧
    SameEnd (run (accept UserCall.isError)
        (embedjsonFinalize (δ := ℚ) .default (behindText text).2) [])
      (run (accept UserCall.isError) (finalizeAfterSpace .default (behindText text).2) [])

/-- A fraction and an exponent that are open, and an open string, which neither end completes. -/
theorem finalize_sameEnd_iff_open : EndsAlike "1.5" ∧ EndsAlike "1e5" ∧ EndsAlike "[\"a" := by
  refine ⟨⟨by decide, ?_⟩, ⟨by decide, ?_⟩, by decide, ?_⟩
  all_goals exact (finalize_sameEnd_iff (accepting_accept _) [] []).mpr (by decide)

theorem empty_fraction_accepted_at_end : (behindText "1.").1 = 0 ∧ ¬EndsAlike "1." :=
  ⟨by decide, fun h => absurd (h.2.1.mp (by decide)) (by decide)⟩

end Embedjson
