import Embedjson.Lexer.Order
import Embedjson.Lexer.Strings

namespace Embedjson

open Foundations Foundations.Utf8

variable {δ : Type} {cfg : Config} {lex : Lexer} {b : UInt8} {index : ℤ}

/-- A byte inside a string is a part of the text or the quote at its end. -/
def StaysInside (index : ℤ) (b : UInt8) : Reaction δ → Prop
  | .consume calls lex => ((∀ f ∈ calls, f.isChunk) ∧ lex.inside) ∨
      (calls = [.tokencEnd (.buffer index)] ∧ b = '\"'.toUInt8 ∧ lex.state = .lookupToken)
  | .unread _ _ => False
  | .reject _ => True

/-- A byte outside of all strings leaves the validator alone, and only a quote leads into a string. -/
def StaysOutside (lex : Lexer) (index : ℤ) (b : UInt8) : Reaction δ → Prop
  | .consume calls lex' => lex'.nb = lex.nb ∧ lex'.cc = lex.cc ∧
      (((∀ p, .tokencBegin p ∉ calls) ∧ lex'.inside = false) ∨
        (calls = [.tokencBegin (.buffer index)] ∧ b = '\"'.toUInt8 ∧ lex'.state = .inString))
  | .unread calls lex' => lex'.nb = lex.nb ∧ lex'.cc = lex.cc ∧ (∀ p, .tokencBegin p ∉ calls) ∧
      lex'.state = .lookupToken
  | .reject _ => True

section Inside

lemma StaysInside.ite {p : Prop} [Decidable p] {r s : Reaction δ} (hr : p → StaysInside index b r)
    (hs : ¬p → StaysInside index b s) : StaysInside index b (if p then r else s) := by
  by_cases h : p
  · rw [if_pos h]
    exact hr h
  · rw [if_neg h]
    exact hs h

variable (cfg) in
lemma react_staysInside [DoubleArith δ] (h : lex.inside = true) (index : ℤ) (b : UInt8) :
    StaysInside index b (react cfg lex index b : Reaction δ) := by
  unfold react
  cases hs : lex.state with
  | inString =>
    dsimp only
    unfold Reaction.ofString
    cases hc : checkUtf8 cfg lex b with
    | error code => trivial
    | ok a =>
      obtain ⟨lex', last⟩ := a
      have hs' : lex'.state = .inString := (checkUtf8_state hc).trans hs
      have hstay : StaysInside index b (.consume [charCall b] lex' : Reaction δ) :=
        .inl ⟨by simp [charCall, LexerCall.isChunk], by simp [Lexer.inside, hs']⟩
      cases last with
      | false => exact hstay
      | true =>
        exact .ite (fun _ => .inl ⟨by simp, rfl⟩) fun _ => .ite (fun hb => .inr ⟨rfl, hb, rfl⟩)
          fun _ => .ite (fun _ => trivial) fun _ => hstay
  | inStringEscape =>
    dsimp only
    unfold Reaction.ofEscape
    cases escapeByte b with
    | some e => exact .inl ⟨by simp [charCall, LexerCall.isChunk], rfl⟩
    | none => exact .ite (fun _ => .inl ⟨by simp, rfl⟩) fun _ => trivial
  | inStringUnicodeEscape =>
    dsimp only
    unfold Reaction.ofUnicodeEscape
    cases hexDigit b with
    | none => trivial
    | some value =>
      refine .ite (fun ho => .inl ⟨by simp [charCall, LexerCall.isChunk], ?_⟩)
        fun ho => .inl ⟨by simp, ?_⟩
      · simp [Lexer.inside, pushHexDigit, ho]
      · simp [Lexer.inside, pushHexDigit, ho, hs]
  | _ => simp [Lexer.inside, hs] at h

end Inside

section Outside

lemma StaysOutside.ite {p : Prop} [Decidable p] {r s : Reaction δ}
    (hr : p → StaysOutside lex index b r) (hs : ¬p → StaysOutside lex index b s) :
    StaysOutside lex index b (if p then r else s) := by
  by_cases h : p
  · rw [if_pos h]
    exact hr h
  · rw [if_neg h]
    exact hs h

lemma staysOutside_consume {calls : List (LexerCall δ)} {lex' : Lexer} (hnb : lex'.nb = lex.nb)
    (hcc : lex'.cc = lex.cc) (hcalls : ∀ p, .tokencBegin p ∉ calls) (hin : lex'.inside = false) :
    StaysOutside lex index b (.consume calls lex' : Reaction δ) :=
  ⟨hnb, hcc, .inl ⟨hcalls, hin⟩⟩

lemma lookup_staysOutside (hin : lex.inside = false) :
    StaysOutside lex index b (Reaction.ofLookup lex (.buffer index) b : Reaction δ) := by
  refine .ite (fun _ => staysOutside_consume rfl rfl (by simp) hin) fun _ => ?_
  iterate 6 refine .ite (fun _ => staysOutside_consume rfl rfl (by simp) hin) fun _ => ?_
  refine .ite (fun hb => ⟨rfl, rfl, .inr ⟨rfl, hb, rfl⟩⟩) fun _ => ?_
  iterate 4 refine .ite (fun _ => staysOutside_consume rfl rfl (by simp) rfl) fun _ => ?_
  exact .ite (fun _ => trivial) fun _ => .ite
    (fun _ => staysOutside_consume rfl rfl (by simp) rfl) fun _ => trivial

lemma keyword_staysOutside {keyword : String} {code : ErrorCode} {tok : Tok} {last : ℕ}
    (hin : lex.inside = false) :
    StaysOutside lex index b
      (Reaction.ofKeyword keyword code tok last lex (.buffer index) b : Reaction δ) :=
  .ite (fun _ => trivial) fun _ => .ite (fun _ => staysOutside_consume rfl rfl (by simp) rfl)
    fun _ => staysOutside_consume rfl rfl (by simp) hin

lemma number_staysOutside {before : Pointer} (hin : lex.inside = false) :
    StaysOutside lex index b (Reaction.ofNumber cfg lex (.buffer index) before b : Reaction δ) := by
  refine .ite (fun _ => .ite (fun _ => trivial) fun _ => .ite (fun _ => .ite ?_ fun _ => trivial) ?_)
    fun _ => .ite ?_ fun _ => .ite ?_ ?_
  · exact fun _ => staysOutside_consume rfl rfl (by simp) rfl
  · exact fun _ => staysOutside_consume rfl rfl (by simp) hin
  · exact fun _ => staysOutside_consume rfl rfl (by simp) rfl
  · exact fun _ => staysOutside_consume rfl rfl (by simp) rfl
  · exact fun _ => ⟨rfl, rfl, by simp, rfl⟩

variable [DoubleArith δ]

variable (cfg) in
lemma react_staysOutside (h : lex.inside = false) (index : ℤ) (b : UInt8) :
    StaysOutside lex index b (react cfg lex index b : Reaction δ) := by
  unfold react
  cases hs : lex.state with
  | lookupToken => exact lookup_staysOutside h
  | inString | inStringEscape | inStringUnicodeEscape => simp [Lexer.inside, hs] at h
  | inNumberSign =>
    exact .ite (fun _ => staysOutside_consume rfl rfl (by simp) rfl) fun _ => trivial
  | inNumber => exact number_staysOutside h
  | inNumberFrac =>
    exact .ite (fun _ => staysOutside_consume rfl rfl (by simp) h) fun _ =>
      .ite (fun _ => .ite (fun _ => trivial) fun _ => staysOutside_consume rfl rfl (by simp) rfl)
        fun _ => .ite (fun _ => trivial) fun _ => ⟨rfl, rfl, by simp, rfl⟩
  | inNumberExpSign =>
    exact .ite (fun _ => staysOutside_consume rfl rfl (by simp) rfl) fun _ =>
      .ite (fun _ => staysOutside_consume rfl rfl (by simp) rfl) fun _ =>
        .ite (fun _ => trivial) fun _ => staysOutside_consume rfl rfl (by simp) rfl
  | inNumberExp =>
    exact .ite (fun _ => .ite (fun _ => trivial) fun _ => staysOutside_consume rfl rfl (by simp) h)
      fun _ => .ite (fun _ => trivial) fun _ => ⟨rfl, rfl, by simp, rfl⟩
  | inBigNumber =>
    exact .ite (fun _ => staysOutside_consume rfl rfl (by simp [bignumCall]) h) fun _ =>
      ⟨rfl, rfl, by simp, rfl⟩
  | inTrue | inFalse | inNull => exact keyword_staysOutside h

lemma react_unread_state {calls : List (LexerCall δ)} {lex' : Lexer}
    (h : react cfg lex index b = .unread calls lex') : lex'.state = .lookupToken := by
  cases hin : lex.inside with
  | true =>
    have hstays := react_staysInside (δ := δ) cfg hin index b
    rw [h] at hstays
    exact hstays.elim
  | false =>
    have hstays := react_staysOutside (δ := δ) cfg hin index b
    rw [h] at hstays
    exact hstays.2.2.2

end Outside

section Steps

variable [DoubleArith δ] {s t : Scan} {calls : List (LexerCall δ)}

lemma scanStep_inside_ok (h : s.lex.inside = true) (hs : scanStep cfg s b = (calls, .ok t)) :
    t.index = s.index + 1 ∧ (((∀ f ∈ calls, f.isChunk) ∧ t.lex.inside) ∨
      (calls = [.tokencEnd (.buffer s.index)] ∧ b = '\"'.toUInt8 ∧ t.lex.state = .lookupToken)) := by
  have hin : (recordMagic s.lex b).inside = true := by simpa [Lexer.inside] using h
  have hr := react_staysInside (δ := δ) cfg hin s.index b
  unfold scanStep at hs
  cases hreact : (react cfg (recordMagic s.lex b) s.index b : Reaction δ) with
  | consume calls' lex =>
    rw [hreact] at hr hs
    cases hs
    exact ⟨rfl, hr⟩
  | unread calls' lex =>
    rw [hreact] at hr
    exact hr.elim
  | reject code => simp [hreact] at hs

lemma scanStep_inside_error {code : ErrorCode} (h : s.lex.inside = true)
    (hs : scanStep cfg s b = (calls, .error code)) : calls = [] := by
  have hin : (recordMagic s.lex b).inside = true := by simpa [Lexer.inside] using h
  have hr := react_staysInside (δ := δ) cfg hin s.index b
  unfold scanStep at hs
  cases hreact : (react cfg (recordMagic s.lex b) s.index b : Reaction δ) with
  | consume calls' lex => simp [hreact] at hs
  | unread calls' lex =>
    rw [hreact] at hr
    exact hr.elim
  | reject code =>
    rw [hreact] at hs
    cases hs
    rfl

def OutsideStep (s : Scan) (b : UInt8) (r : List (LexerCall δ) × Except ErrorCode Scan) : Prop :=
  match r.2 with
  | .ok t => t.index = s.index + 1 ∧ t.lex.nb = s.lex.nb ∧ t.lex.cc = s.lex.cc ∧
      (((∀ p, .tokencBegin p ∉ r.1) ∧ t.lex.inside = false) ∨
        ∃ before, r.1 = before ++ [.tokencBegin (.buffer s.index)] ∧
          (∀ p, .tokencBegin p ∉ before) ∧ b = '\"'.toUInt8 ∧ t.lex.state = .inString)
  | .error _ => ∀ p, .tokencBegin p ∉ r.1

variable (cfg) in
lemma scanStep_outside (h : s.lex.inside = false) (b : UInt8) :
    OutsideStep s b (scanStep (δ := δ) cfg s b) := by
  have hin : (recordMagic s.lex b).inside = false := by simpa [Lexer.inside] using h
  have hr := react_staysOutside (δ := δ) cfg hin s.index b
  unfold scanStep
  cases hreact : (react cfg (recordMagic s.lex b) s.index b : Reaction δ) with
  | consume calls lex =>
    rw [hreact] at hr
    obtain ⟨hnb, hcc, hcalls⟩ := hr
    rw [recordMagic_nb] at hnb
    rw [recordMagic_cc] at hcc
    refine ⟨rfl, hnb, hcc, hcalls.imp_right ?_⟩
    rintro ⟨rfl, hb, hs⟩
    exact ⟨[], rfl, by simp, hb, hs⟩
  | reject code => simp [OutsideStep]
  | unread calls lex =>
    rw [hreact] at hr
    obtain ⟨hnb, hcc, hcalls, hlex⟩ := hr
    rw [recordMagic_nb] at hnb
    rw [recordMagic_cc] at hcc
    have hin' : (recordMagic lex b).inside = false := by simp [Lexer.inside, hlex]
    have hr' := react_staysOutside (δ := δ) cfg hin' s.index b
    dsimp only
    cases hreact' : (react cfg (recordMagic lex b) s.index b : Reaction δ) with
    | consume calls' lex' =>
      rw [hreact'] at hr'
      obtain ⟨hnb', hcc', hcalls'⟩ := hr'
      rw [recordMagic_nb] at hnb'
      rw [recordMagic_cc] at hcc'
      refine ⟨rfl, hnb'.trans hnb, hcc'.trans hcc, ?_⟩
      rcases hcalls' with ⟨hno, hin⟩ | ⟨rfl, hb, hs⟩
      · exact .inl ⟨fun p => by simp [hcalls p, hno p], hin⟩
      · exact .inr ⟨calls, rfl, hcalls, hb, hs⟩
    | reject code => exact hcalls
    | unread calls' lex' =>
      exact absurd hreact' (react_ne_unread (by rw [recordMagic_state, hlex]) _ _ _ _)

end Steps

section Runs

variable [DoubleArith δ] {s t : Scan} {calls mid before after : List (LexerCall δ)}
  {body bytes : List UInt8}

lemma run_inside (hs : s.lex.inside = true) (h : (scanner cfg).run s body = (calls, .ok t))
    (hcalls : ∀ p, .tokencEnd p ∉ calls) :
    t.lex.inside = true ∧ ∀ f ∈ calls, f.isChunk := by
  refine (scanner cfg).run_invariant (P := fun _ (calls : List (LexerCall δ)) t =>
      (∀ p, .tokencEnd p ∉ calls) → t.lex.inside = true ∧ ∀ f ∈ calls, f.isChunk)
    (fun _ => ⟨hs, by simp⟩) (fun bytes calls u b calls' t hu hstep hall => ?_) h hcalls
  obtain ⟨hin, hchunk⟩ := hu fun p hp => hall p (List.mem_append_left _ hp)
  obtain ⟨-, ⟨hchunk', ht⟩ | ⟨rfl, -⟩⟩ := scanStep_inside_ok hin hstep
  · exact ⟨ht, fun f hf => (List.mem_append.mp hf).elim (hchunk f) (hchunk' f)⟩
  · exact absurd (List.mem_append_right _ (List.mem_singleton.mpr rfl)) (hall _)

lemma scanner_ends {p : Pointer} (hs : s.lex.inside = true)
    (h : ((scanner cfg).run s bytes).1 = mid ++ .tokencEnd p :: after)
    (hmid : ∀ p, .tokencEnd p ∉ mid) :
    ∃ body rest t u, bytes = body ++ '\"'.toUInt8 :: rest ∧
      (scanner cfg).run s body = (mid, .ok t) ∧
      scanStep (δ := δ) cfg t '\"'.toUInt8 = ([.tokencEnd (.buffer t.index)], .ok u) ∧
      p = .buffer t.index ∧ ∀ f ∈ mid, f.isChunk := by
  obtain ⟨body, x, rest, calls, t, qs, rs, rfl, hrun, hstep, rfl, -⟩ :=
    Transducer.run_split_output _ h
  obtain ⟨hin, hchunk⟩ := run_inside hs hrun fun p hp => hmid p (List.mem_append_left _ hp)
  change (scanStep cfg t x).1 = _ at hstep
  rcases hx : scanStep (δ := δ) cfg t x with ⟨os, code | u⟩
  · rw [hx, scanStep_inside_error hin hx] at hstep
    simp at hstep
  · rw [hx] at hstep
    obtain ⟨-, ⟨hno, -⟩ | ⟨rfl, rfl, -⟩⟩ := scanStep_inside_ok hin hx
    · have hmem : .tokencEnd p ∈ os := by
        rw [show os = _ from hstep]
        simp
      exact absurd (hno _ hmem) Bool.false_ne_true
    · obtain ⟨rfl, hend⟩ : qs = [] ∧ p = .buffer t.index := by
        cases qs <;> simp_all
      rw [List.append_nil]
      exact ⟨body, _, t, u, rfl, hrun, hx, hend, hchunk⟩

omit [DoubleArith δ] in
lemma last_of_append {prior qs rs : List (LexerCall δ)} {p q : Pointer}
    (h : prior ++ [.tokencBegin q] = qs ++ .tokencBegin p :: rs) (hno : .tokencBegin p ∉ prior) :
    p = q ∧ rs = [] := by
  rcases List.append_eq_append_iff.mp h with ⟨as, rfl, heq⟩ | ⟨bs, rfl, heq⟩
  · cases as <;> simp_all
  · cases bs <;> simp_all

lemma scanner_begins {p : Pointer}
    (h : ((scanner cfg).run s bytes).1 = before ++ .tokencBegin p :: after) :
    ∃ start rest calls u t, bytes = start ++ '\"'.toUInt8 :: rest ∧
      (scanner (δ := δ) cfg).run s start = (calls, .ok u) ∧ p = .buffer u.index ∧
      u.lex.inside = false ∧ t.lex.nb = u.lex.nb ∧ t.lex.cc = u.lex.cc ∧
      t.lex.state = .inString ∧ t.index = u.index + 1 ∧
      after = ((scanner cfg).run t rest).1 := by
  obtain ⟨start, x, rest, calls, u, qs, rs, rfl, hrun, hstep, -, hafter⟩ :=
    Transducer.run_split_output _ h
  change (scanStep cfg u x).1 = _ at hstep
  change ∀ t, (scanStep (δ := δ) cfg u x).2 = .ok t → _ at hafter
  have hbegin : .tokencBegin p ∈ (scanStep (δ := δ) cfg u x).1 := by
    rw [hstep]
    simp
  cases hin : u.lex.inside with
  | true =>
    rcases hx : scanStep (δ := δ) cfg u x with ⟨os, code | t⟩
    · rw [hx, scanStep_inside_error hin hx] at hbegin
      simp at hbegin
    · rw [hx] at hbegin
      obtain ⟨-, ⟨hchunk, -⟩ | ⟨rfl, -⟩⟩ := scanStep_inside_ok hin hx
      · exact absurd (hchunk _ hbegin) Bool.false_ne_true
      · simp at hbegin
  | false =>
    have hout := scanStep_outside (δ := δ) cfg hin x
    rcases hx : scanStep (δ := δ) cfg u x with ⟨os, code | t⟩
    · rw [hx] at hbegin hout
      exact absurd hbegin (hout _)
    · rw [hx] at hbegin hout hstep
      obtain ⟨ht, hnb, hcc, ⟨hno, -⟩ | ⟨prior, hprior, hno, rfl, hstate⟩⟩ := hout
      · exact absurd hbegin (hno _)
      · have heq : prior ++ [.tokencBegin (.buffer u.index)] = qs ++ .tokencBegin p :: rs :=
          hprior.symm.trans hstep
        obtain ⟨hp, rfl⟩ := last_of_append heq (hno _)
        exact ⟨start, rest, calls, u, t, rfl, hrun, hp, hin, hnb, hcc, hstate, ht,
          hafter t (by rw [hx])⟩

end Runs

end Embedjson
