import Embedjson.GrowingStack
import Embedjson.StackLimits
import Embedjson.ViablePrefixes

namespace Embedjson

open Foundations Foundations.Program Json

variable {δ : Type} {cfg : Config} {b : UInt8}

def LexerCall.Opens : LexerCall δ → Prop
  | token _ _ | tokencBegin _ => True
  | f => f.IsValue

lemma LexerCall.IsValue.opens {f : LexerCall δ} (h : f.IsValue) : f.Opens := by
  cases f with
  | token tok position => trivial
  | tokencBegin position => trivial
  | _ => exact h

def Reaction.Opening (b : UInt8) : Reaction δ → Prop
  | .consume calls lex => (calls = [] ∧ b ∈ whitespace ∧ lex.state = .lookupToken) ∨
      (calls = [] ∧ lex.onValue = true) ∨ ∃ f, calls = [f] ∧ f.Opens
  | .unread _ _ => False
  | .reject _ => True

lemma Reaction.Opening.ite {p : Prop} [Decidable p] {r s : Reaction δ} (hr : p → r.Opening b)
    (hs : ¬p → s.Opening b) : (if p then r else s).Opening b := by
  split_ifs with h
  · exact hr h
  · exact hs h

lemma lookup_opening {lex : Lexer} (hs : lex.state = .lookupToken) (at_ : Pointer) (b : UInt8) :
    (Reaction.ofLookup lex at_ b : Reaction δ).Opening b := by
  have hcall {f : LexerCall δ} {lex' : Lexer} (hf : f.Opens) :
      (Reaction.consume [f] lex').Opening b := .inr (.inr ⟨f, rfl, hf⟩)
  have hvalue {lex' : Lexer} (h : lex'.onValue = true) :
      (Reaction.consume [] lex' : Reaction δ).Opening b := .inr (.inl ⟨rfl, h⟩)
  refine .ite (fun hb => .inl ⟨rfl, ?_, hs⟩) fun _ => ?_
  · simpa [whitespace] using hb
  iterate 7 refine .ite (fun _ => hcall trivial) fun _ => ?_
  iterate 4 refine .ite (fun _ => hvalue rfl) fun _ => ?_
  exact .ite (fun _ => trivial) fun _ => .ite (fun _ => hvalue rfl) fun _ => trivial

variable [DoubleArith δ] {s t : Scan} {calls final : List (LexerCall δ)} {bytes : List UInt8}

lemma scanStep_opening (hs : s.lex.state = .lookupToken) (hstep : scanStep cfg s b = (calls, .ok t)) :
    (calls = [] ∧ b ∈ whitespace ∧ t.lex.state = .lookupToken) ∨
      (calls = [] ∧ t.lex.onValue = true) ∨ ∃ f, calls = [f] ∧ f.Opens := by
  have hstate : (recordMagic s.lex b).state = .lookupToken := (recordMagic_state _ _).trans hs
  have hopening := lookup_opening (δ := δ) hstate (.buffer s.index) b
  have hreact : (react cfg (recordMagic s.lex b) s.index b : Reaction δ) =
      .ofLookup (recordMagic s.lex b) (.buffer s.index) b := by rw [react, hstate]
  rw [← hreact] at hopening
  cases hr : (react cfg (recordMagic s.lex b) s.index b : Reaction δ) with
  | consume calls' lex =>
    rw [scanStep_consume hr] at hstep
    cases hstep
    rw [hr] at hopening
    exact hopening
  | reject code =>
    rw [scanStep_reject hr] at hstep
    cases hstep
  | unread calls' lex =>
    rw [hr] at hopening
    exact hopening.elim

/-- Whatever is not white space ends with calls for a token or with an error. -/
lemma white_or_opens (hs : s.lex.state = .lookupToken)
    (hrun : (scanner cfg).run s bytes = (calls, .ok t)) (hfinal : finalCalls cfg t.lex = some final) :
    (∀ b ∈ bytes, b ∈ whitespace) ∨ ∃ f rest, calls ++ final = f :: rest ∧ f.Opens := by
  induction bytes generalizing s calls with
  | nil => exact .inl fun _ h => absurd h List.not_mem_nil
  | cons b bytes ih =>
    obtain ⟨ps, qs, u, hstep, hrest, rfl⟩ := Transducer.run_cons_eq_ok _ hrun
    obtain ⟨rfl, hb, hu⟩ | ⟨rfl, hu⟩ | ⟨f, rfl, hf⟩ := scanStep_opening hs hstep
    · exact (ih hu hrest).imp_left fun h => List.forall_mem_cons.mpr ⟨hb, h⟩
    · obtain ⟨f, rest, hcalls, hf⟩ := exists_isValue hu hrest hfinal
      exact .inr ⟨f, rest, hcalls, hf.opens⟩
    · exact .inr ⟨f, qs ++ final, rfl, hf⟩

variable (cfg) in
lemma run_white (hs : s.lex.state = .lookupToken) (h : ∀ b ∈ bytes, b ∈ whitespace) :
    ∃ t, (scanner (δ := δ) cfg).run s bytes = ([], .ok t) ∧ t.lex.state = .lookupToken := by
  induction bytes generalizing s with
  | nil => exact ⟨s, rfl, hs⟩
  | cons b bytes ih =>
    rw [List.forall_mem_cons] at h
    have hstate : (recordMagic s.lex b).state = .lookupToken := (recordMagic_state _ _).trans hs
    have hreact : (react cfg (recordMagic s.lex b) s.index b : Reaction δ) =
        .consume [] (recordMagic s.lex b) := by
      rw [react, hstate]
      exact if_pos (by simpa [whitespace] using h.1)
    obtain ⟨t, hrun, ht⟩ := ih (s := ⟨recordMagic s.lex b, s.index + 1⟩) hstate h.2
    exact ⟨t, by rw [Transducer.run_cons_ok _ (scanStep_consume hreact), hrun]; rfl, ht⟩

section Values

variable {p q : Parser} {us : List (UserCall δ)} {v : Json δ}

def Json.isNumber : Json δ → Bool
  | int _ | double _ => true
  | _ => false

omit [DoubleArith δ] in
variable (cfg) in
lemma done_refuses (hp : p.state = .done) {f : LexerCall δ} (hf : f.Opens) :
    ∃ os code, parserStep cfg p f = (os, .error code) := by
  rw [parserStep]
  cases f with
  | token tok position =>
    rw [onLexerCall, embedjsonToken, hp]
    exact ⟨_, _, rfl⟩
  | tokeni v position =>
    rw [onLexerCall, embedjsonTokeni, numberToken, hp]
    exact ⟨_, _, rfl⟩
  | tokenf v position =>
    rw [onLexerCall, embedjsonTokenf, numberToken, hp]
    exact ⟨_, _, rfl⟩
  | tokenbnBegin position v =>
    rw [onLexerCall, embedjsonTokenbnBegin, numberToken, hp]
    exact ⟨_, _, rfl⟩
  | tokencBegin position =>
    rw [onLexerCall, embedjsonTokencBegin, hp]
    exact ⟨_, _, rfl⟩
  | _ => exact hf.elim

def UserCall.IsNumber : UserCall δ → Prop
  | int _ | double _ | bignumEnd => True
  | _ => False

omit [DoubleArith δ] in
lemma traversal_last (hv : v.isNumber = false) :
    ∃ front last, traversal v = front ++ [last] ∧ ¬last.IsNumber := by
  cases v with
  | null => exact ⟨[], .null, rfl, id⟩
  | bool value => exact ⟨[], .bool value, rfl, id⟩
  | int value => cases hv
  | double value => cases hv
  | string text => exact ⟨_, .stringEnd, rfl, id⟩
  | array elements => exact ⟨.arrayBegin :: traverseElements elements, .arrayEnd, rfl, id⟩
  | object members => exact ⟨.objectBegin :: traverseMembers members, .objectEnd, rfl, id⟩

lemma finalCalls_number (hdebug : cfg.debug = false) (hfinal : finalCalls cfg s.lex = some final)
    (hrun : (parserMachine cfg).run p final = (us, .ok q)) (hq : q.state = .done) :
    final = [] ∨ ∃ u, us = [u] ∧ u.IsNumber := by
  have hnumber {f : LexerCall δ} {u : UserCall δ} {position : Pointer} (hu : u.IsNumber)
      (hone : u.isError = false)
      (hf : onLexerCall cfg f p = numberToken cfg p u position)
      (hstep : parserStep cfg p f = (us, .ok q)) : ∃ u : UserCall δ, us = [u] ∧ u.IsNumber := by
    have hcall (t : Parser) : observe UserCall.isError (returnCall u t) = ([u], some (0, t)) :=
      observe_returnCall hone t
    rw [parserStep, hf, numberToken] at hstep
    cases hp : p.state <;> rw [hp] at hstep
    case expectValue | expectObjectValue | maybeArrayValue | expectArrayValue =>
      simp only [hcall] at hstep
      cases hstep
      exact ⟨u, rfl, hu⟩
    case invalid =>
      simp only [hdebug] at hstep
      cases hstep
      cases hp.symm.trans hq
    all_goals cases hstep
  rw [finalCalls] at hfinal
  cases hs : s.lex.state <;> rw [hs] at hfinal <;> cases hfinal
  · exact .inl rfl
  all_goals rw [Transducer.run_singleton] at hrun
  · exact .inr (hnumber (u := .int (signedInt cfg s.lex)) trivial rfl rfl hrun)
  · exact .inr (hnumber (u := .double _) trivial rfl rfl hrun)
  · exact .inr (hnumber (u := .double _) trivial rfl rfl hrun)
  · have hcheck (t : Parser) (k : ParserProgram δ) : checkState cfg t .null k = k := by
      rw [checkState, if_neg (by simp [hdebug])]
    have hstep : parserStep cfg p (.tokenbnEnd .null : LexerCall δ) = (us, .ok q) := hrun
    rw [parserStep, onLexerCall, embedjsonTokenbnEnd, endToken, hcheck, hcheck,
      observe_returnCall rfl] at hstep
    cases hstep
    exact .inr ⟨.bignumEnd, rfl, trivial⟩

/-- Behind a document that is no number the lexer is between two tokens. -/
lemma ReadsDocument.lookup (hdebug : cfg.debug = false) (h : ReadsDocument cfg bytes calls us)
    (hv : v.isNumber = false) (hview : quiet (view us) = traversal v) :
    ∃ s p, (scanner cfg).run ⟨.zero, 0⟩ bytes = (calls, .ok s) ∧ s.lex.state = .lookupToken ∧
      (parserMachine cfg).run (.zero cfg) calls = (us, .ok p) ∧ p.state = .done := by
  obtain ⟨s, front, final, p, hscan, hfinal, rfl, hparser, hdone⟩ := h
  obtain ⟨ps, qs, q, -, hlast, rfl⟩ := Transducer.run_append_eq_ok _ hparser
  obtain rfl | ⟨u, rfl, hu⟩ := finalCalls_number hdebug hfinal hlast hdone
  · rw [List.append_nil] at hparser ⊢
    refine ⟨s, p, hscan, ?_, hparser, hdone⟩
    rw [finalCalls] at hfinal
    cases hs : s.lex.state <;> rw [hs] at hfinal <;> cases hfinal
  · obtain ⟨front', last, htraversal, hlast'⟩ := traversal_last hv
    have hpiece : quiet (view [u]) = [u] := by
      cases u <;> first | rfl | exact hu.elim
    rw [view_append, quiet_append, hpiece, htraversal] at hview
    obtain ⟨-, heq⟩ := List.append_inj' hview rfl
    cases heq
    exact absurd hu hlast'

end Values

section Runs

variable {answer : List (UserCall δ) → UserCall δ → ℤ} {chunks : List (List UInt8)} {v : Json δ}

/-- Nothing but white space may follow, and it changes no callback. Requests for memory do not count
as callbacks of the document. -/
theorem trailing_iff (hdebug : cfg.debug = false) (hA : Accepting UserCall.isError answer)
    (hv : v.isNumber = false) {vs : List (UserCall δ)} (hparse : Parses cfg answer chunks vs)
    (hvalue : quiet vs = traversal v) (more : List UInt8) (us : List (UserCall δ)) :
    Parses cfg answer (chunks ++ [more]) us ↔ (∀ b ∈ more, b ∈ whitespace) ∧ us = vs := by
  obtain ⟨calls, ws, hreads, rfl⟩ := (parses_iff_reads hdebug hA _).mp hparse
  obtain ⟨s, p, hscan, hs, hparser, hdone⟩ := hreads.lookup hdebug hv hvalue
  rw [parses_iff_reads hdebug hA, List.flatten_append, List.flatten_singleton]
  have hwhite (h : ∀ b ∈ more, b ∈ whitespace) :
      ReadsDocument cfg (chunks.flatten ++ more) calls ws := by
    obtain ⟨t, hrun, ht⟩ := run_white (δ := δ) cfg hs h
    have hall : (scanner (δ := δ) cfg).run ⟨.zero, 0⟩ (chunks.flatten ++ more) = (calls, .ok t) := by
      rw [Transducer.run_append_ok _ hscan, hrun, List.append_nil]
    exact ⟨t, calls, [], p, hall, by rw [finalCalls, ht], (List.append_nil _).symm, hparser, hdone⟩
  constructor
  · rintro ⟨calls', ws', hreads', rfl⟩
    have hbytes : ∀ b ∈ more, b ∈ whitespace := by
      obtain ⟨s', front, final, q, hscan', hfinal, rfl, hparser', -⟩ := hreads'
      obtain ⟨ps, qs, t, hfirst, hmore, rfl⟩ := Transducer.run_append_eq_ok _ hscan'
      cases hscan.symm.trans hfirst
      refine (white_or_opens hs hmore hfinal).resolve_right ?_
      rintro ⟨f, rest, hcalls, hf⟩
      rw [List.append_assoc, hcalls] at hparser'
      obtain ⟨_, _, p', hp, hrest, -⟩ := Transducer.run_append_eq_ok _ hparser'
      cases hparser.symm.trans hp
      obtain ⟨_, _, _, hstep, -, -⟩ := Transducer.run_cons_eq_ok _ hrest
      obtain ⟨_, code, herror⟩ := done_refuses cfg hdone hf
      cases herror.symm.trans hstep
    exact ⟨hbytes, by rw [hreads'.unique (hwhite hbytes)]⟩
  · rintro ⟨hbytes, rfl⟩
    exact ⟨calls, ws, hwhite hbytes, rfl⟩

end Runs

/-- The text `[] ,` with a stack in dynamic memory. -/
theorem trailing_iff_comma : ¬Parses (δ := ℚ) .dynamic (accept UserCall.isError)
    ([[91, 93]] ++ [[32, 44]]) [.stackOverflow, .arrayBegin, .arrayEnd] := by
  have hparse : Parses (δ := ℚ) .dynamic (accept UserCall.isError) [[91, 93]]
      [.stackOverflow, .arrayBegin, .arrayEnd] := ⟨by decide, by decide⟩
  rw [trailing_iff (v := .array []) rfl (accepting_accept _) rfl hparse rfl]
  rintro ⟨h, -⟩
  have hcomma := h 44 (by decide)
  revert hcomma
  decide

end Embedjson
