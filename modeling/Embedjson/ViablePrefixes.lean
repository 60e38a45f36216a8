import Embedjson.Completions

/-! The parser stops as soon as no document begins with what it has read, except behind the beginning of
a number or keyword, which it sees only as a whole. -/

namespace Embedjson

open Foundations Foundations.Program Foundations.Utf8 Json

variable {δ : Type} {cfg : Config} {p q : Parser}

/-- Inside a number or a keyword. The calls for it are still to come. -/
def Lexer.onValue (lex : Lexer) : Bool :=
  match lex.state with
  | .inNumberSign | .inNumber | .inNumberFrac | .inNumberExpSign | .inNumberExp => true
  | .inTrue | .inFalse | .inNull => true
  | _ => false

section Values

def LexerCall.IsValue : LexerCall δ → Prop
  | token t _ => t = .true ∨ t = .false ∨ t = .null
  | tokeni _ _ | tokenf _ _ | tokenbnBegin _ _ => True
  | _ => False

def Begins (calls : List (LexerCall δ)) (lex : Lexer) : Prop :=
  calls = [] ∧ lex.onValue = true ∨ ∃ f rest, calls = f :: rest ∧ f.IsValue

def Reaction.GoesOn : Reaction δ → Prop
  | .consume calls lex => Begins calls lex
  | .unread calls _ => ∃ f, calls = [f] ∧ f.IsValue
  | .reject _ => True

namespace Reaction

lemma GoesOn.ite {p : Prop} [Decidable p] {r s : Reaction δ} (hr : p → r.GoesOn)
    (hs : ¬p → s.GoesOn) : (if p then r else s).GoesOn := by
  split_ifs with h
  · exact hr h
  · exact hs h

lemma goesOn_silent {lex : Lexer} (h : lex.onValue = true) : (consume [] lex : Reaction δ).GoesOn :=
  .inl ⟨rfl, h⟩

lemma goesOn_call {f : LexerCall δ} {lex : Lexer} (h : f.IsValue) : (consume [f] lex).GoesOn :=
  .inr ⟨f, [], rfl, h⟩

lemma keyword_goesOn {keyword : String} {code : ErrorCode} {tok : Tok} {last : ℕ} {lex : Lexer}
    {at_ : Pointer} {b : UInt8} (htok : tok = .true ∨ tok = .false ∨ tok = .null)
    (h : lex.onValue = true) : (ofKeyword keyword code tok last lex at_ b : Reaction δ).GoesOn :=
  .ite (fun _ => trivial) fun _ => .ite (fun _ => goesOn_call htok) fun _ => goesOn_silent h

end Reaction

variable [DoubleArith δ] {s t : Scan} {calls : List (LexerCall δ)} {b : UInt8}

open Reaction in
variable (cfg) in
lemma react_goesOn {lex : Lexer} (h : lex.onValue = true) (index : ℤ) (b : UInt8) :
    (react cfg lex index b : Reaction δ).GoesOn := by
  rw [react]
  cases hs : lex.state with
  | inNumberSign => exact .ite (fun _ => goesOn_silent rfl) fun _ => trivial
  | inNumber =>
    have hdigit : (pushIntDigit cfg lex b).onValue = true := by
      simpa [pushIntDigit, Lexer.onValue] using h
    refine .ite (fun _ => .ite (fun _ => trivial) fun _ => .ite (fun _ => ?_) fun _ =>
      goesOn_silent hdigit) fun _ => .ite (fun _ => goesOn_silent rfl) fun _ =>
        .ite (fun _ => goesOn_silent rfl) fun _ => ⟨_, rfl, trivial⟩
    exact .ite (fun _ => goesOn_call trivial) fun _ => trivial
  | inNumberFrac =>
    have hdigit : (pushFracDigit lex b).onValue = true := by
      simpa [pushFracDigit, Lexer.onValue] using h
    exact .ite (fun _ => goesOn_silent hdigit) fun _ =>
      .ite (fun _ => .ite (fun _ => trivial) fun _ => goesOn_silent rfl) fun _ =>
        .ite (fun _ => trivial) fun _ => ⟨_, rfl, trivial⟩
  | inNumberExpSign =>
    exact .ite (fun _ => goesOn_silent rfl) fun _ => .ite (fun _ => goesOn_silent rfl) fun _ =>
      .ite (fun _ => trivial) fun _ => goesOn_silent rfl
  | inNumberExp =>
    have hdigit : (pushExpDigit lex b).onValue = true := by
      simpa [pushExpDigit, Lexer.onValue] using h
    exact .ite (fun _ => .ite (fun _ => trivial) fun _ => goesOn_silent hdigit) fun _ =>
      .ite (fun _ => trivial) fun _ => ⟨_, rfl, trivial⟩
  | inTrue => exact keyword_goesOn (.inl rfl) h
  | inFalse => exact keyword_goesOn (.inr (.inl rfl)) h
  | inNull => exact keyword_goesOn (.inr (.inr rfl)) h
  | _ => simp [Lexer.onValue, hs] at h

lemma scanStep_begins (h : s.lex.onValue = true) (hstep : scanStep cfg s b = (calls, .ok t)) :
    Begins calls t.lex := by
  have hon : (recordMagic s.lex b).onValue = true := by
    simpa [Lexer.onValue, recordMagic_state] using h
  have hreact := react_goesOn (δ := δ) cfg hon s.index b
  rw [scanStep] at hstep
  cases hr : (react cfg (recordMagic s.lex b) s.index b : Reaction δ) with
  | consume calls' lex =>
    rw [hr] at hreact hstep
    cases hstep
    exact hreact
  | reject code => simp [hr] at hstep
  | unread calls' lex =>
    rw [hr] at hreact
    obtain ⟨f, rfl, hf⟩ := hreact
    simp only [hr] at hstep
    cases hr' : (react cfg (recordMagic lex b) s.index b : Reaction δ) with
    | consume calls'' lex' =>
      rw [hr'] at hstep
      cases hstep
      exact .inr ⟨f, calls'', rfl, hf⟩
    | reject code => simp [hr'] at hstep
    | unread calls'' lex' => simp [hr'] at hstep

lemma run_begins {bytes : List UInt8} (h : s.lex.onValue = true)
    (hrun : (scanner cfg).run s bytes = (calls, .ok t)) : Begins calls t.lex := by
  induction bytes generalizing s calls with
  | nil =>
    cases hrun
    exact .inl ⟨rfl, h⟩
  | cons b bytes ih =>
    obtain ⟨ps, qs, u, hstep, hrest, rfl⟩ := Transducer.run_cons_eq_ok _ hrun
    obtain ⟨rfl, hu⟩ | ⟨f, rest, rfl, hf⟩ := scanStep_begins h hstep
    · exact ih hu hrest
    · exact .inr ⟨f, rest ++ qs, rfl, hf⟩

lemma exists_isValue {bytes : List UInt8} {final : List (LexerCall δ)} (h : s.lex.onValue = true)
    (hrun : (scanner cfg).run s bytes = (calls, .ok t)) (hfinal : finalCalls cfg t.lex = some final) :
    ∃ f rest, calls ++ final = f :: rest ∧ f.IsValue := by
  obtain ⟨rfl, ht⟩ | ⟨f, rest, rfl, hf⟩ := run_begins h hrun
  · rw [Lexer.onValue] at ht
    rw [finalCalls] at hfinal
    cases hs : t.lex.state <;> rw [hs] at ht hfinal <;> cases ht <;> cases hfinal
    all_goals exact ⟨_, [], rfl, trivial⟩
  · exact ⟨f, rest ++ final, rfl, hf⟩

end Values

section Completion

variable [DoubleArith δ] {s t : Scan} {text back bytes : List UInt8} {rest calls : List (LexerCall δ)}
  {A : Automaton} {c : Conf}

omit [DoubleArith δ] in
lemma Spelt.onValue (h : Spelt cfg text t.lex) : t.lex.onValue = true := by
  cases h with
  | sign h => rw [Lexer.onValue, h.state]
  | int _ _ h => rw [Lexer.onValue, h.state]
  | frac _ _ _ h => rw [Lexer.onValue, h.state]
  | expSign _ _ _ _ h => rw [Lexer.onValue, h.state]
  | exp _ _ _ _ _ _ _ _ h => rw [Lexer.onValue, h.state]

omit [DoubleArith δ] in
lemma InWord.onValue {tok : Tok} {pre post : List UInt8} (h : InWord cfg tok pre post t.lex) :
    t.lex.onValue = true ∧ (pre ++ post, tok) ∈ keywords := by
  obtain ⟨hs, rfl, hword⟩ | ⟨hs, rfl, hword⟩ | ⟨hs, rfl, hword⟩ := h.word
  all_goals exact ⟨by rw [Lexer.onValue, hs], by simp [keywords, ← hword]⟩

omit [DoubleArith δ] in
lemma exists_primitive (hc : c.Wf) (h : afterValue c.state ≠ none) (f : UserCall δ) :
    ∃ c', Automaton.primitive c f = some ([f], c') ∧ c'.Wf := by
  obtain ⟨state, hstate⟩ := Option.ne_none_iff_exists'.mp h
  exact ⟨⟨state, c.stack⟩, by rw [Automaton.primitive, hstate]; rfl, hc.afterValue hstate⟩

omit [DoubleArith δ] in
lemma exists_keyword {word : List UInt8} {tok : Tok} (hc : c.Wf) (h : afterValue c.state ≠ none)
    (hword : (word, tok) ∈ keywords) :
    ∃ us c', A.lexeme c (.tok tok : Lexeme δ) = some (us, c') ∧ c'.Wf := by
  simp only [keywords, List.mem_cons, Prod.mk.injEq, List.not_mem_nil, or_false] at hword
  rcases hword with ⟨-, rfl⟩ | ⟨-, rfl⟩ | ⟨-, rfl⟩
  all_goals exact ⟨_, exists_primitive hc h _⟩

lemma Pending.completes (hbits : 8 ≤ cfg.intBits) (h : Pending cfg t back rest)
    (hutf8 : cfg.validateUtf8 = true → ∃ front tail, WellFormed (front ++ back ++ tail)) (hc : c.Wf)
    (hvalue : t.lex.onValue = true → afterValue c.state ≠ none)
    (hstring : rest ≠ [] → afterString c.state ≠ none) :
    ∃ more, ∃ ts : List (Lexeme δ), ∃ us c', Leads cfg (back ++ more) ts [] ∧
      A.machine.run c ts = (us, .ok c') ∧ c'.Wf := by
  have hone {x : Lexeme δ} {us : List (UserCall δ)} {c' : Conf} (hx : A.lexeme c x = some (us, c')) :
      A.machine.run c [x] = (us, .ok c') := by
    rw [Transducer.run_singleton]
    exact Automaton.machine_step_ok.mpr hx
  cases h with
  | gap h => exact ⟨[], [], [], c, leads_nil [], rfl, hc⟩
  | @string s content out p hs hrun h =>
    have hcontent (hv : cfg.validateUtf8 = true) : ∃ tail, WellFormed (content ++ tail) := by
      obtain ⟨front, tail, hall⟩ := hutf8 hv
      rw [List.append_assoc] at hall
      exact ⟨tail, (hall.split (by decide)).2⟩
    obtain ⟨more, out', hout⟩ := content_completes hbits hs hcontent hrun h
    obtain ⟨state, hstate⟩ := Option.ne_none_iff_exists'.mp (hstring (List.cons_ne_nil _ _))
    refine ⟨more ++ ['\"'.toUInt8], [.string (out'.map fun b => [b])], _, ⟨state, c.stack⟩, ?_,
      hone (by rw [Automaton.lexeme, hstate]; rfl), hc.afterString hstate⟩
    simpa using leads_token (Spells.string hout)
  | @word tok pre post hpost h =>
    obtain ⟨hon, hkeyword⟩ := h.onValue
    obtain ⟨us, c', hx, hc'⟩ := exists_keyword (A := A) hc (hvalue hon) hkeyword
    exact ⟨post, _, us, c', leads_token (.keyword hkeyword), hone hx, hc'⟩
  | @number text h hnb hcc =>
    obtain ⟨more, n, htext, hn⟩ := h.completes hbits
    have hx : ∃ us c', A.lexeme c (n.lexeme : Lexeme δ) = some (us, c') ∧ c'.Wf := by
      rw [Numeral.lexeme]
      split_ifs
      · exact ⟨_, exists_primitive hc (hvalue h.onValue) _⟩
      · exact ⟨_, exists_primitive hc (hvalue h.onValue) _⟩
    obtain ⟨us, c', hx, hc'⟩ := hx
    exact ⟨more, _, us, c', htext ▸ leads_number hn, hone hx, hc'⟩

end Completion

section Readings

variable [DoubleArith δ] {s t : Scan} {back bytes : List UInt8} {rest calls : List (LexerCall δ)}
  {os us : List (UserCall δ)} {c : Conf} {chunks : List (List UInt8)}

lemma reached (hdebug : cfg.debug = false)
    (h : observe UserCall.isError (pushAll (δ := δ) cfg (.zero cfg) chunks) = (us, some (0, p))) :
    ∃ (calls : List (LexerCall δ)) (os : List (UserCall δ)) (t : Scan),
      (scanner cfg).run ⟨.zero, 0⟩ chunks.flatten = (calls, .ok t) ∧
        (parserMachine cfg).run (.zero cfg) calls = (os, .ok (p.setLexer .zero)) ∧
        t.lex = p.lexer ∧ view us = view os := by
  have hpush := pushAll_reports (δ := δ) hdebug (.zero cfg) .zero 0 chunks
  rw [h] at hpush
  rcases hrun : (embedjson (δ := δ) cfg).run (⟨.zero, 0⟩, .zero cfg) chunks.flatten with
    ⟨os, code | ⟨t, q⟩⟩
  · have hpush' : Reports .zero (us, some (0, p)) (os, .error code) := hrun ▸ hpush
    cases hpush'.1
  · have hpush' : Reports .zero (us, some (0, p)) (os, .ok (t, q)) := hrun ▸ hpush
    obtain ⟨u, hp, rfl, hview, -⟩ := hpush'
    cases hp
    obtain ⟨calls, hcalls, hos⟩ := (Transducer.andThen_run_eq_ok _ _).mp hrun
    exact ⟨calls, os, t, hcalls, hos, rfl, hview⟩

variable (hstatic : cfg.dynamicStack = false)

include hstatic

omit [DoubleArith δ] in
lemma refused (hr : Represents cfg q c) (hc : c.Wf) (hnone : afterValue c.state = none)
    {f : LexerCall δ} (hf : f.IsValue) : ∃ os code, parserStep cfg q f = (os, .error code) := by
  have hprimitive (u : UserCall δ) : Automaton.primitive c u = none := by
    rw [Automaton.primitive, hnone]
    rfl
  have hfollows (hf : c.Expects f) (hmove : cfg.automaton.call c f = none) :
      ∃ os code, parserStep cfg q f = (os, .error code) := by
    have hstep := parserStep_follows hr hc hstatic hf
    rw [hmove] at hstep
    obtain ⟨u, code, hstep, -⟩ := hstep
    exact ⟨_, code, hstep⟩
  cases f with
  | token tok position =>
    refine hfollows trivial ?_
    obtain rfl | rfl | rfl := hf
    all_goals exact hprimitive _
  | tokeni v position => exact hfollows trivial (hprimitive _)
  | tokenf v position => exact hfollows trivial (hprimitive _)
  | tokenbnBegin position v =>
    rw [parserStep, onLexerCall, embedjsonTokenbnBegin, numberToken, hr.state]
    obtain ⟨state, stack⟩ := c
    cases state with
    | expectValue | expectObjectValue | maybeArrayValue | expectArrayValue => cases hnone
    | invalid => exact hc.elim
    | _ => exact ⟨_, _, rfl⟩
  | _ => exact hf.elim

lemma Lexed.reading (h : Lexed cfg bytes calls t)
    (hrun : (parserMachine cfg).run (.zero cfg) calls = (os, .ok q)) :
    ∃ (back : List UInt8) (rest : List (LexerCall δ)) (ts : List (Lexeme δ))
      (vs : List (UserCall δ)) (c : Conf), (∃ front, bytes = front ++ back) ∧
      Leads cfg bytes ts back ∧ Pending cfg t back rest ∧
      cfg.automaton.machine.run .zero ts = (vs, .ok c) ∧ Represents cfg q c ∧ c.Wf ∧
      (rest ≠ [] → afterString c.state ≠ none) := by
  obtain ⟨front, back, done, rest, ts, hbytes, rfl, hdone, hleads, hpending⟩ := h
  obtain ⟨ps, qs, q', hfirst, hlast, rfl⟩ := Transducer.run_append_eq_ok _ hrun
  have htokens := run_lexemes_follows cfg (represents_zero cfg hstatic) rfl hstatic hdone
  rcases hmachine : cfg.automaton.machine.run .zero ts with ⟨vs, e | c⟩
  · rw [hmachine] at htokens
    obtain ⟨_, code, herror⟩ := htokens
    cases hfirst.symm.trans herror
  · rw [hmachine] at htokens
    obtain ⟨_, hfirst', hr, hc⟩ := htokens
    cases hfirst.symm.trans hfirst'
    have hend : Represents cfg q c ∧ (rest ≠ [] → afterString c.state ≠ none) := by
      cases hpending with
      | gap h =>
        cases hlast
        exact ⟨hr, fun hne => absurd rfl hne⟩
      | word hpost h =>
        cases hlast
        exact ⟨hr, fun hne => absurd rfl hne⟩
      | number h hnb hcc =>
        cases hlast
        exact ⟨hr, fun hne => absurd rfl hne⟩
      | @string s content out position hs hcontent h =>
        obtain ⟨_, _, q'', hbegin, hchunks, -⟩ := Transducer.run_cons_eq_ok _ hlast
        have hstep := parserStep_follows hr hc hstatic (f := (.tokencBegin position : LexerCall δ))
          trivial
        rw [Automaton.call] at hstep
        cases hstate : afterString c.state with
        | none =>
          rw [hstate] at hstep
          obtain ⟨u, code, herror, -⟩ := hstep
          cases herror.symm.trans hbegin
        | some state =>
          rw [hstate] at hstep
          obtain ⟨_, hbegin', hr', hc'⟩ := hstep
          cases hbegin'.symm.trans hbegin
          have hforget : (out.map charCall : List (LexerCall δ)).map LexerCall.forget =
              (out.map fun b => [b]).map (.tokenc .null) := by
            simp [charCall, LexerCall.forget]
          obtain ⟨q₂, hchunks', hr₂, -⟩ := run_chunks_follows hr' hc' hstatic hforget
          cases hchunks.symm.trans hchunks'
          exact ⟨hr₂, fun _ => Option.some_ne_none _⟩
    exact ⟨back, rest, ts, vs, c, ⟨front, hbytes⟩, hleads, hpending, hmachine, hend.1, hc, hend.2⟩

end Readings

section Prefixes

variable [DoubleArith δ] {chunks : List (List UInt8)} {us : List (UserCall δ)} {code : ℤ}

lemma observe_pushAll_append {more : List (List UInt8)}
    (h : observe UserCall.isError (pushAll cfg p (chunks ++ more)) = (us, some (code, q))) :
    ∃ (vs ws : List (UserCall δ)) (t : Parser),
      observe UserCall.isError (pushAll cfg p chunks) = (vs, some (0, t)) ∧
      observe UserCall.isError (pushAll cfg t more) = (ws, some (code, q)) := by
  induction chunks generalizing p us with
  | nil => exact ⟨[], us, p, rfl, h⟩
  | cons chunk chunks ih =>
    obtain ⟨vs, ws, t, hpush, hrest, rfl⟩ := observe_pushAll_cons h
    obtain ⟨vs', ws', t', hall, hmore⟩ := ih hrest
    refine ⟨vs ++ vs', ws', t', ?_, hmore⟩
    rw [pushAll, observe_bind, hpush, followedBy_some, if_neg (not_not_intro rfl), hall]

variable (hdebug : cfg.debug = false) (hstatic : cfg.dynamicStack = false)
  (hbits : 8 ≤ cfg.intBits)
  (hutf8 : cfg.validateUtf8 = true → ∃ more, WellFormed (chunks.flatten ++ more))
  (hpush : observe UserCall.isError (pushAll (δ := δ) cfg (.zero cfg) chunks) = (us, some (0, p)))

include hdebug hstatic hbits hutf8 hpush

/-- No big number has begun, so the lexer has read tokens and the beginning of another one. -/
lemma exists_reading (hdoomed : ¬Doomed p.lexer.group p) :
    ∃ (t : Scan) (back : List UInt8) (rest : List (LexerCall δ)) (ts : List (Lexeme δ))
      (vs : List (UserCall δ)) (c : Conf), t.lex = p.lexer ∧
      (∃ front, chunks.flatten = front ++ back) ∧ Leads cfg chunks.flatten ts back ∧
      Pending cfg t back rest ∧ cfg.automaton.machine.run .zero ts = (vs, .ok c) ∧
      Represents cfg (p.setLexer .zero) c ∧ c.Wf ∧ (rest ≠ [] → afterString c.state ≠ none) := by
  obtain ⟨calls, os, t, hscan, hparser, ht, -⟩ := reached hdebug hpush
  have hlexed : Lexed cfg chunks.flatten calls t := by
    refine (lexed_of_run hbits (s := ⟨.zero, 0⟩) (ready_zero cfg) hutf8 hscan).resolve_right ?_
    rintro ⟨position, v, hmem⟩
    exact hdoomed (doomed_pushAll (p := .zero cfg) (.inr (exists_big hscan hmem)) hpush)
  obtain ⟨back, rest, ts, vs, c, hfront, hleads, hpending, hmachine, hr, hc, hstring⟩ :=
    hlexed.reading hstatic hparser
  exact ⟨t, back, rest, ts, vs, c, ht, hfront, hleads, hpending, hmachine, hr, hc, hstring⟩

lemma exists_document (hdoomed : ¬Doomed p.lexer.group p)
    (hvalue : p.lexer.onValue = true → afterValue p.state ≠ none) :
    ∃ more l q, observe UserCall.isError (parse (δ := δ) cfg (chunks ++ [more])) =
      (l, some (0, q)) := by
  obtain ⟨t, back, rest, ts, vs, c, ht, ⟨front, hfront⟩, hleads, hpending, hmachine, hr, hc,
    hstring⟩ := exists_reading hdebug hstatic hbits hutf8 hpush hdoomed
  rw [← ht, show p.state = c.state from hr.state] at hvalue
  obtain ⟨more, xs, vs', c', hleads', hmachine', hc'⟩ :=
    hpending.completes (A := cfg.automaton) hbits (fun hv => ⟨front, hfront ▸ hutf8 hv⟩) hc hvalue
      hstring
  obtain ⟨text, ys, vs'', c'', hlast, hmachine'', hdone⟩ :=
    completable (δ := δ) (A := cfg.automaton) hbits (.inl rfl) c'.stack hc'
  have hall : cfg.automaton.machine.run .zero (ts ++ (xs ++ ys)) =
      (vs ++ (vs' ++ vs''), .ok c'') := by
    rw [Transducer.run_append_ok _ hmachine, Transducer.run_append_ok _ hmachine', hmachine'']
  obtain ⟨v, hv, hdepth, hus⟩ := (run_done_iff (d := .implemented)).mp ⟨c'', hall, hdone⟩
  have htext : Tokenises cfg (chunks.flatten ++ (more ++ text)) (ts ++ (xs ++ ys)) := by
    have htail : Tokenises cfg text ys := by simpa using hlast [] [] .nil
    refine hleads _ _ ?_
    rw [← List.append_assoc]
    simpa using hleads' text ys htail
  have hflatten : (chunks ++ [more ++ text]).flatten = chunks.flatten ++ (more ++ text) := by simp
  rw [hv, ← hflatten] at htext
  obtain ⟨l, q, hparse, -⟩ := (observe_parse_iff (chunks ++ [more ++ text]) hdebug hstatic hbits
    (fun hv => htext.wellFormed hv) (traversal v)).mpr ⟨v, htext, hdepth, rfl⟩
  exact ⟨more ++ text, l, q, hparse⟩

omit hdebug hstatic hbits hutf8 in
lemma not_doomed_of_parse {more : List UInt8} {l : List (UserCall δ)}
    (hparse : observe UserCall.isError (parse (δ := δ) cfg (chunks ++ [more])) = (l, some (0, q))) :
    ¬Doomed p.lexer.group p := by
  intro hdoomed
  obtain ⟨t, _, _, hall, hend, -⟩ := observe_parse_some hparse
  obtain ⟨_, _, p', hpush', hmore⟩ := observe_pushAll_append hall
  cases hpush.symm.trans hpush'
  cases (finalize_doomed (doomed_pushAll (.inl hdoomed) hmore)).symm.trans (congrArg Prod.snd hend)

/-- What has begun ends with a call that the parser takes only where a value may stand. -/
lemma afterValue_of_parse {more : List UInt8} {l : List (UserCall δ)}
    (hparse : observe UserCall.isError (parse (δ := δ) cfg (chunks ++ [more])) = (l, some (0, q)))
    (hon : p.lexer.onValue = true) : afterValue p.state ≠ none := by
  obtain ⟨_, _, _, _, _, c, _, _, _, _, _, hr, hc, -⟩ := exists_reading hdebug hstatic hbits hutf8 hpush
    (not_doomed_of_parse hpush hparse)
  rw [show p.state = c.state from hr.state]
  intro hnone
  obtain ⟨calls, os, t, hscan, hparser, ht, -⟩ := reached hdebug hpush
  obtain ⟨_, _, _, us', -, ⟨s, front, final, _, hfront, hfinal, rfl, hall, -⟩, -⟩ | ⟨hfails, -⟩ :=
    observe_parse_reads (δ := δ) hdebug (chunks ++ [more])
  · rw [List.flatten_append, List.flatten_singleton] at hfront
    obtain ⟨_, qs, t', hscan', hmore, rfl⟩ := Transducer.run_append_eq_ok _ hfront
    cases hscan.symm.trans hscan'
    obtain ⟨f, rest, hcalls, hf⟩ := exists_isValue (ht ▸ hon) hmore hfinal
    rw [List.append_assoc, hcalls] at hall
    obtain ⟨_, _, _, hparser', hrest, -⟩ := Transducer.run_append_eq_ok _ hall
    cases hparser.symm.trans hparser'
    obtain ⟨_, _, _, hstep, -, -⟩ := Transducer.run_cons_eq_ok _ hrest
    obtain ⟨_, code, herror⟩ := refused hstatic hr hc hnone hf
    cases herror.symm.trans hstep
  · cases hfails.symm.trans (congrArg Prod.snd hparse)

end Prefixes

section Runs

variable [DoubleArith δ] {chunks : List (List UInt8)}
  {answer : List (UserCall δ) → UserCall δ → ℤ}

theorem viable_iff (hdebug : cfg.debug = false) (hstatic : cfg.dynamicStack = false)
    (hbits : 8 ≤ cfg.intBits) (hA : Accepting UserCall.isError answer)
    (hutf8 : cfg.validateUtf8 = true → ∃ more, WellFormed (chunks.flatten ++ more))
    (hpush : (run answer (pushAll cfg (.zero cfg) chunks) []).2 = (0, p)) :
    (∃ more, (run answer (parse cfg (chunks ++ [more])) []).2.1 = 0) ↔
      ¬Doomed p.lexer.group p ∧ (p.lexer.onValue = true → afterValue p.state ≠ none) := by
  have hobs : observe UserCall.isError (pushAll cfg (.zero cfg) chunks) =
      ((run answer (pushAll cfg (.zero cfg) chunks) []).1, some (0, p)) :=
    ((pushAll_relaysCode (.zero cfg) chunks).run_eq_iff hA [] rfl).mp (Prod.ext rfl hpush)
  constructor
  · rintro ⟨more, hmore⟩
    have ho := (run_parse_iff hA).mp (Prod.ext rfl (Prod.ext hmore rfl))
    exact ⟨not_doomed_of_parse hobs ho, afterValue_of_parse hdebug hstatic hbits hutf8 hobs ho⟩
  · rintro ⟨hdoomed, hvalue⟩
    obtain ⟨more, l, q, ho⟩ := exists_document hdebug hstatic hbits hutf8 hobs hdoomed hvalue
    exact ⟨more, by rw [(run_parse_iff hA).mpr ho]⟩

end Runs

/-- The parser behind an opening bracket, a quote and the first byte of `é`. -/
def insideCharacter : Parser :=
  (run (accept UserCall.isError)
    (pushAll (δ := ℚ) .default (.zero .default) [[91, 34], [0xc3]]) []).2.2

theorem viable_iff_insideCharacter : ∃ more, (run (accept UserCall.isError)
    (parse (δ := ℚ) .default ([[91, 34], [0xc3]] ++ [more])) []).2.1 = 0 := by
  have hpush : (run (accept UserCall.isError)
      (pushAll (δ := ℚ) .default (.zero .default) [[91, 34], [0xc3]]) []).2 =
        (0, insideCharacter) := rfl
  refine (viable_iff rfl rfl (by decide) (accepting_accept _) (fun _ => ⟨[0xa9], "[\"é".toList, rfl⟩)
    hpush).mpr ⟨?_, fun h => absurd h (by decide)⟩
  rintro (h | ⟨h, -⟩)
  · cases h
  · cases h

end Embedjson
