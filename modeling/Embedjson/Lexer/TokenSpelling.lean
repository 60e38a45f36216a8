import Embedjson.Lexer.NumberSpelling
import Embedjson.Utf8Soundness

namespace Embedjson

open Foundations Foundations.Utf8

variable {δ : Type} [DoubleArith δ] {cfg : Config} {lex : Lexer} {b : UInt8} {index : ℤ} {s t : Scan}
  {text content out : List UInt8}

/-- Between two tokens, with nothing left over from the string before. -/
structure Ready (cfg : Config) (lex : Lexer) : Prop where
  lookup : AtLookup cfg lex
  nb : lex.nb = 0
  cc : lex.cc = 0

structure AtText (cfg : Config) (lex : Lexer) : Prop where
  tidy : Tidy cfg lex
  text : InText lex 0 0

/-- Behind the letters `pre` of a keyword, in front of the letters `post`. -/
structure InWord (cfg : Config) (tok : Tok) (pre post : List UInt8) (lex : Lexer) : Prop where
  tidy : Tidy cfg lex
  nb : lex.nb = 0
  cc : lex.cc = 0
  offset : lex.offset = pre.length
  word : lex.state = .inTrue ∧ tok = .true ∧ "true".toList.map Char.toUInt8 = pre ++ post ∨
    lex.state = .inFalse ∧ tok = .false ∧ "false".toList.map Char.toUInt8 = pre ++ post ∨
    lex.state = .inNull ∧ tok = .null ∧ "null".toList.map Char.toUInt8 = pre ++ post

omit [DoubleArith δ] in
lemma ready_zero (cfg : Config) : Ready cfg .zero := ⟨⟨tidy_zero cfg, rfl⟩, rfl, rfl⟩

section Magic

omit [DoubleArith δ]

lemma Ready.recordMagic (h : Ready cfg lex) (b : UInt8) : Ready cfg (recordMagic lex b) :=
  ⟨h.lookup.recordMagic b, (recordMagic_nb _ _).trans h.nb, (recordMagic_cc _ _).trans h.cc⟩

lemma AtText.recordMagic (h : AtText cfg lex) (b : UInt8) : AtText cfg (recordMagic lex b) :=
  ⟨tidy_recordMagic h.tidy b, (recordMagic_state _ _).trans h.text.state,
    (recordMagic_nb _ _).trans h.text.nb, (recordMagic_cc _ _).trans h.text.cc⟩

lemma InWord.recordMagic {tok : Tok} {pre post : List UInt8} (h : InWord cfg tok pre post lex)
    (b : UInt8) : InWord cfg tok pre post (recordMagic lex b) := by
  refine ⟨tidy_recordMagic h.tidy b, (recordMagic_nb _ _).trans h.nb,
    (recordMagic_cc _ _).trans h.cc, (recordMagic_offset _ _).trans h.offset, ?_⟩
  simpa only [recordMagic_state] using h.word

end Magic

section Keywords

omit [DoubleArith δ] in
lemma ofKeyword_eq {keyword : String} {code : ErrorCode} {tok : Tok} {last : ℕ} {at_ : Pointer}
    {c : UInt8} {pre post : List UInt8} (hword : keyword.toList.map Char.toUInt8 = pre ++ c :: post)
    (hlast : last = pre.length + post.length) (hoffset : lex.offset = pre.length) :
    (Reaction.ofKeyword keyword code tok last lex at_ b : Reaction δ) =
      if b ≠ c then .reject code
      else if post = [] then
        .consume [.token tok at_] { lex with offset := lex.offset + 1, state := .lookupToken }
      else .consume [] { lex with offset := lex.offset + 1 } := by
  have hletter : (keyword.toList.map Char.toUInt8 ++ [0])[lex.offset]? = some c := by
    rw [hword, hoffset, List.append_assoc, List.getElem?_append_right le_rfl]
    simp
  rw [Reaction.ofKeyword, hletter, hlast, hoffset]
  by_cases hb : b = c
  · have hnil : pre.length + 1 > pre.length + post.length ↔ post = [] := by
      rw [← List.length_eq_zero_iff]
      omega
    simp [hb, hnil]
  · simp [hb]

lemma last_of_word {w pre post : List UInt8} {c : UInt8} {n : ℕ} (hword : w = pre ++ c :: post)
    (hlen : w.length = n + 1) : n = pre.length + post.length := by
  rw [hword, List.length_append, List.length_cons] at hlen
  omega

def Letter (cfg : Config) (tok : Tok) (pre : List UInt8) (c : UInt8) (post : List UInt8)
    (index : ℤ) (b : UInt8) : Reaction δ → Prop
  | .consume calls lex => b = c ∧
      (post = [] ∧ calls = [.token tok (.buffer index)] ∧ Ready cfg lex ∨
        post ≠ [] ∧ calls = [] ∧ InWord cfg tok (pre ++ [b]) post lex)
  | .unread _ _ => False
  | .reject _ => b ≠ c

variable (hbits : 8 ≤ cfg.intBits)

include hbits

lemma InWord.letter {tok : Tok} {pre post : List UInt8} {c : UInt8}
    (h : InWord cfg tok pre (c :: post) lex) (index : ℤ) (b : UInt8) :
    Letter cfg tok pre c post index b (react cfg lex index b : Reaction δ) := by
  have hreact : ∃ code, (react cfg lex index b : Reaction δ) = if b ≠ c then .reject code
      else if post = [] then
        .consume [.token tok (.buffer index)] { lex with offset := lex.offset + 1, state := .lookupToken }
      else .consume [] { lex with offset := lex.offset + 1 } := by
    rcases h.word with ⟨hs, rfl, hword⟩ | ⟨hs, rfl, hword⟩ | ⟨hs, rfl, hword⟩
    · have hkeyword : (react cfg lex index b : Reaction δ) =
          .ofKeyword "true" .badTrue .true 3 lex (.buffer index) b := by rw [react, hs]
      exact ⟨.badTrue, hkeyword.trans (ofKeyword_eq hword (last_of_word (n := 3) hword rfl) h.offset)⟩
    · have hkeyword : (react cfg lex index b : Reaction δ) =
          .ofKeyword "false" .badFalse .false 4 lex (.buffer index) b := by rw [react, hs]
      exact ⟨.badFalse, hkeyword.trans (ofKeyword_eq hword (last_of_word (n := 4) hword rfl) h.offset)⟩
    · have hkeyword : (react cfg lex index b : Reaction δ) =
          .ofKeyword "null" .badNull .null 3 lex (.buffer index) b := by rw [react, hs]
      exact ⟨.badNull, hkeyword.trans (ofKeyword_eq hword (last_of_word (n := 3) hword rfl) h.offset)⟩
  obtain ⟨code, hreact⟩ := hreact
  by_cases hb : b = c
  · rw [if_neg (not_not.mpr hb)] at hreact
    by_cases hpost : post = []
    · rw [if_pos hpost] at hreact
      have htidy := tidy_of_consume hbits h.tidy hreact
      rw [hreact]
      exact ⟨hb, .inl ⟨hpost, rfl, ⟨htidy, rfl⟩, h.nb, h.cc⟩⟩
    · rw [if_neg hpost] at hreact
      have htidy := tidy_of_consume hbits h.tidy hreact
      rw [hreact]
      refine ⟨hb, .inr ⟨hpost, rfl, htidy, h.nb, h.cc, ?_, ?_⟩⟩
      · simp [h.offset]
      · simpa [hb] using h.word
  · rw [if_pos hb] at hreact
    rw [hreact]
    exact hb

lemma moves_word {tok : Tok} {pre post : List UInt8} (h : InWord cfg tok pre post s.lex)
    (hpost : post ≠ []) : ∃ p, Moves cfg s post ([.token tok p] : List (LexerCall δ)) (Ready cfg) := by
  induction post generalizing s pre with
  | nil => exact absurd rfl hpost
  | cons c post ih =>
    have hletter := (h.recordMagic c).letter (δ := δ) hbits s.index c
    cases hreact : (react cfg (Embedjson.recordMagic s.lex c) s.index c : Reaction δ) with
    | consume calls lex =>
      rw [hreact] at hletter
      obtain ⟨-, ⟨rfl, rfl, hready⟩ | ⟨hne, rfl, hword⟩⟩ := hletter
      · exact ⟨_, moves_one hreact hready⟩
      · obtain ⟨p, hp⟩ := ih (s := ⟨lex, s.index + 1⟩) hword hne
        have hfirst : Moves cfg s [c] ([] : List (LexerCall δ)) fun lex' => lex' = lex :=
          moves_one hreact rfl
        refine ⟨p, hfirst.append ?_⟩
        rintro lex' rfl
        exact hp
    | unread calls lex =>
      rw [hreact] at hletter
      exact hletter.elim
    | reject code =>
      rw [hreact] at hletter
      exact absurd rfl hletter

end Keywords

section Strings

omit [DoubleArith δ] in
lemma checkUtf8_ascii (cfg : Config) (hnb : lex.nb = 0) (hcc : lex.cc = 0) (hb : b ≤ 0x7f) :
    checkUtf8 cfg lex b = .ok (lex, true) := by
  by_cases hv : cfg.validateUtf8 = true
  · have hval : validate lex.nb lex.cc b = some (lex.nb, lex.cc, true) := by
      rw [hnb, hcc]
      exact validate_ascii hb
    exact checkUtf8_of_validate hv hval
  · exact if_neg hv

omit [DoubleArith δ] in
lemma checkUtf8_unchecked (hv : ¬cfg.validateUtf8 = true) (lex : Lexer) (b : UInt8) :
    checkUtf8 cfg lex b = .ok (lex, true) := if_neg hv

variable (hbits : 8 ≤ cfg.intBits)

include hbits

lemma moves_open (h : Ready cfg s.lex) : Moves cfg s ['\"'.toUInt8]
    ([.tokencBegin (.buffer s.index)] : List (LexerCall δ)) (AtText cfg) := by
  have hr := h.recordMagic '\"'.toUInt8
  have hreact : (react cfg (recordMagic s.lex '\"'.toUInt8) s.index '\"'.toUInt8 : Reaction δ) =
      .consume [.tokencBegin (.buffer s.index)]
        { recordMagic s.lex '\"'.toUInt8 with state := .inString } := by
    rw [hr.lookup.react_eq]
    rfl
  exact moves_one hreact ⟨tidy_of_consume hbits hr.lookup.tidy hreact, rfl, hr.nb, hr.cc⟩

lemma moves_close (h : AtText cfg s.lex) : Moves cfg s ['\"'.toUInt8]
    ([.tokencEnd (.buffer s.index)] : List (LexerCall δ)) (Ready cfg) := by
  have ht := h.recordMagic '\"'.toUInt8
  have hcheck := checkUtf8_ascii (b := '\"'.toUInt8) cfg ht.text.nb ht.text.cc (by decide)
  have hreact : (react cfg (recordMagic s.lex '\"'.toUInt8) s.index '\"'.toUInt8 : Reaction δ) =
      .consume [.tokencEnd (.buffer s.index)]
        { recordMagic s.lex '\"'.toUInt8 with state := .lookupToken } := by
    rw [react, ht.text.state, Reaction.ofString, hcheck]
    rfl
  exact moves_one hreact ⟨⟨tidy_of_consume hbits ht.tidy hreact, rfl⟩, ht.text.nb, ht.text.cc⟩

omit hbits in
lemma carries_unchecked (hv : ¬cfg.validateUtf8 = true) (h : Decodes content out)
    (ht : InText s.lex 0 0) : Carries δ cfg s content 0 0 := by
  have hslash {s : Scan} (ht : InText s.lex 0 0) : ∃ lex,
      scanStep (δ := δ) cfg s '\\'.toUInt8 = ([], .ok ⟨lex, s.index + 1⟩) ∧
        lex.state = .inStringEscape ∧ lex.nb = 0 ∧ lex.cc = 0 := by
    refine ⟨{ recordMagic s.lex '\\'.toUInt8 with state := .inStringEscape }, scanStep_consume ?_,
      rfl, (recordMagic_nb _ _).trans ht.nb, (recordMagic_cc _ _).trans ht.cc⟩
    rw [react_inText ht, Reaction.ofString, checkUtf8_unchecked hv]
    rfl
  induction h generalizing s with
  | nil => exact .nil ht
  | @byte b rest out hnslash hnquote h ih =>
    have hstep : scanStep (δ := δ) cfg s b =
        ([b].map charCall, .ok ⟨recordMagic s.lex b, s.index + 1⟩) := by
      refine scanStep_consume ?_
      rw [react_inText ht, Reaction.ofString, checkUtf8_unchecked hv]
      simp [hnslash, hnquote, hv]
    exact .cons _ hstep (ih ⟨(recordMagic_state _ _).trans ht.state, (recordMagic_nb _ _).trans ht.nb,
      (recordMagic_cc _ _).trans ht.cc⟩)
  | escape he h ih =>
    obtain ⟨lex₀, hstep₀, hs, hnb, hcc⟩ := hslash ht
    obtain ⟨lex₁, hstep₁, h₁⟩ := scan_simpleEscape (δ := δ) cfg (s := ⟨lex₀, s.index + 1⟩) hs
      (escapeByte_of_mem he)
    simp only [hnb, hcc] at h₁
    exact .cons [] hstep₀ (.cons [_] hstep₁ (ih h₁))
  | unicode ha hb hc hd h ih =>
    obtain ⟨va, ha, -⟩ := hexDigit_of_mem ha
    obtain ⟨vb, hb, -⟩ := hexDigit_of_mem hb
    obtain ⟨vc, hc, -⟩ := hexDigit_of_mem hc
    obtain ⟨vd, hd, -⟩ := hexDigit_of_mem hd
    obtain ⟨lex₀, hstep₀, hs, hnb, hcc⟩ := hslash ht
    obtain ⟨lex₁, hstep₁, h₁⟩ := scan_unicodeEscape (δ := δ) cfg (s := ⟨lex₀, s.index + 1⟩) hs
    obtain ⟨lex₂, hstep₂, h₂⟩ := scan_digit (δ := δ) cfg
      (s := ⟨lex₁, s.index + 1 + 1⟩) h₁ (by decide) ha
    obtain ⟨lex₃, hstep₃, h₃⟩ := scan_digit (δ := δ) cfg
      (s := ⟨lex₂, s.index + 1 + 1 + 1⟩) h₂ (by decide) hb
    obtain ⟨lex₄, hstep₄, h₄⟩ := scan_digit (δ := δ) cfg
      (s := ⟨lex₃, s.index + 1 + 1 + 1 + 1⟩) h₃ (by decide) hc
    obtain ⟨lex₅, x, y, hstep₅, h₅⟩ := scan_lastDigit (δ := δ) cfg
      (s := ⟨lex₄, s.index + 1 + 1 + 1 + 1 + 1⟩) h₄ hd
    simp only [hnb, hcc] at h₅
    exact .cons [] hstep₀ (.cons [] hstep₁ (.cons [] hstep₂ (.cons [] hstep₃ (.cons [] hstep₄
      (.cons [x, y] hstep₅ (ih h₅))))))

omit [DoubleArith δ] hbits in
lemma map_charCall_injective : Function.Injective (List.map (charCall (δ := δ))) :=
  List.map_injective_iff.mpr fun a b h => by simpa [charCall] using h

lemma moves_content (h : AtText cfg s.lex) (hc : Content cfg content out) :
    Moves cfg s content (out.map charCall : List (LexerCall δ)) (AtText cfg) := by
  have hcarries : Carries δ cfg s content 0 0 := by
    by_cases hv : cfg.validateUtf8 = true
    · obtain ⟨items, rfl, hplane⟩ := hc.items hv
      exact (scan_items hv items h.text).1 hplane
    · exact carries_unchecked hv hc.decodes h.text
  obtain ⟨text, t, hrun, ht⟩ := hcarries
  obtain ⟨out', hout, hreads⟩ := scanner_run_delivered h.text.state hrun (by simp [charCall])
  simp only [Reads, ht.state] at hreads
  rw [hout, hreads.unique hc.decodes] at hrun
  have hindex := scanner_run_index hrun
  refine ⟨t.lex, ?_, scanner_run_tidy hbits h.tidy hrun, ht⟩
  rw [hrun, ← hindex]

lemma moves_string (h : Ready cfg s.lex) (hc : Content cfg content out) : ∃ p q,
    Moves cfg s ('\"'.toUInt8 :: content ++ ['\"'.toUInt8])
      (.tokencBegin p :: out.map charCall ++ [.tokencEnd q] : List (LexerCall δ)) (Ready cfg) := by
  have hbody : Moves cfg s (['\"'.toUInt8] ++ content)
      ([.tokencBegin (.buffer s.index)] ++ out.map charCall : List (LexerCall δ)) (AtText cfg) :=
    (moves_open hbits h).append fun lex hlex => moves_content hbits hlex hc
  exact ⟨.buffer s.index, .buffer (s.index + (['\"'.toUInt8] ++ content).length),
    hbody.append fun lex hlex => moves_close (s := ⟨lex, _⟩) hbits hlex⟩

omit hbits in
lemma content_of_run {p : Pointer} {u : Scan}
    (hutf8 : cfg.validateUtf8 = true → WellFormed content) (h : AtText cfg s.lex)
    (hrun : (scanner (δ := δ) cfg).run s content = (out.map charCall, .ok t))
    (hstep : scanStep (δ := δ) cfg t '\"'.toUInt8 = ([.tokencEnd p], .ok u))
    (hd : Decodes content out) : Content cfg content out := by
  refine ⟨hd, fun hv => ?_⟩
  have hinside : s.lex.inside = true := by rw [Lexer.inside, h.text.state]
  have hchunks : ∀ f ∈ (out.map charCall : List (LexerCall δ)), f.isChunk := by
    simp [charCall, LexerCall.isChunk]
  have hend : Closes δ cfg t [] := by
    obtain ⟨hin, -⟩ := run_inside hinside hrun (by simp [charCall])
    obtain ⟨-, ⟨hf, -⟩ | ⟨hcalls, -, -⟩⟩ := scanStep_inside_ok hin hstep
    · simp [LexerCall.isChunk] at hf
    · exact ⟨u, hcalls ▸ hstep⟩
  have hsound := (closes_of_run hrun hchunks hend).sound_or_slipped hv _ le_rfl h.text
  obtain ⟨⟨cs, hcs⟩, hcontrol⟩ := hsound.resolve_right fun hslip =>
    hslip.not_wellFormed (hutf8 hv)
  rw [← hcs] at hd hcontrol
  obtain ⟨items, hitems⟩ := exists_items _ le_rfl hd hcontrol
  rw [hcs] at hitems
  refine ⟨items, hitems, fun c hc hmem hplane => ?_⟩
  obtain ⟨os, code, herror⟩ := (scan_items (δ := δ) hv items h.text).2 ⟨c, hc, hmem, hplane⟩
  rw [← hitems, hrun] at herror
  cases herror

end Strings

section Lookups

omit [DoubleArith δ] in
lemma Ready.outside (h : Ready cfg lex) : lex.inside = false := by
  rw [Lexer.inside, h.lookup.state]

omit [DoubleArith δ] in
lemma structural_delimiter {tok : Tok} (h : structural b = some tok) : b ∈ delimiters := by
  rw [structural] at h
  split_ifs at h <;> subst b <;> decide

omit [DoubleArith δ] in
lemma whitespace_delimiter (h : b ∈ whitespace) : b ∈ delimiters ∧ structural b = none := by
  have hb : b = ' '.toUInt8 ∨ b = '\n'.toUInt8 ∨ b = '\r'.toUInt8 ∨ b = '\t'.toUInt8 := by
    simpa [whitespace] using h
  rcases hb with rfl | rfl | rfl | rfl
  all_goals exact ⟨by decide, by decide⟩

lemma moves_gap (h : Ready cfg s.lex) (hb : b ∈ delimiters) :
    Moves cfg s [b] (delimiterCalls b (.buffer s.index) : List (LexerCall δ)) (Ready cfg) := by
  have hr := h.recordMagic b
  obtain ⟨lex, hreact, hlex⟩ := hr.lookup.delimiter (δ := δ) hb s.index
  have hout := react_staysOutside (δ := δ) cfg hr.outside s.index b
  rw [hreact] at hout
  exact moves_one hreact ⟨hlex, hout.1.trans hr.nb, hout.2.1.trans hr.cc⟩

def Looked (cfg : Config) (index : ℤ) (b : UInt8) : Reaction δ → Prop
  | .consume calls lex =>
    (b ∈ whitespace ∧ calls = [] ∧ Ready cfg lex) ∨
    (∃ tok, structural b = some tok ∧ calls = [.token tok (.buffer index)] ∧ Ready cfg lex) ∨
    (b = '\"'.toUInt8 ∧ calls = [.tokencBegin (.buffer index)] ∧ AtText cfg lex) ∨
    (calls = [] ∧ ∃ tok post, post ≠ [] ∧ InWord cfg tok [b] post lex) ∨
    (calls = [] ∧ Spelt cfg [b] lex ∧ lex.nb = 0 ∧ lex.cc = 0)
  | .unread _ _ => False
  | .reject _ => True

omit [DoubleArith δ] in
lemma Looked.ite {p : Prop} [Decidable p] {r r' : Reaction δ} (hr : p → Looked cfg index b r)
    (hr' : ¬p → Looked cfg index b r') : Looked cfg index b (if p then r else r') := by
  by_cases h : p
  · rw [if_pos h]
    exact hr h
  · rw [if_neg h]
    exact hr' h

variable (hbits : 8 ≤ cfg.intBits)

include hbits

lemma Ready.looked (h : Ready cfg lex) (index : ℤ) (b : UInt8) :
    Looked cfg index b (react cfg lex index b : Reaction δ) := by
  have hclear : NumberClear lex := h.lookup.tidy.clear h.lookup.state
  have hout := react_staysOutside (δ := δ) cfg h.outside index b
  have hnumber {lex' : Lexer} (hreact : react cfg lex index b = (.consume [] lex' : Reaction δ))
      (hread : Spelt cfg [b] lex') : Looked cfg index b (react cfg lex index b : Reaction δ) := by
    rw [hreact] at hout ⊢
    exact .inr (.inr (.inr (.inr ⟨rfl, hread, hout.1.trans h.nb, hout.2.1.trans h.cc⟩)))
  by_cases hminus : b = '-'.toUInt8
  · obtain ⟨lex', hreact, hlex⟩ := h.lookup.pushMinus (δ := δ) hbits index
    subst hminus
    exact hnumber hreact (.sign hlex)
  by_cases hdigit : isDigit b = true
  · obtain ⟨lex', hreact, hlex⟩ := h.lookup.firstDigit (δ := δ) hbits hdigit index
    exact hnumber hreact (.int (isInt_singleton hdigit) (fitsInt_singleton hbits hdigit) hlex)
  have hsymbol (tok : Tok) (hb : structural b = some tok) :
      Looked cfg index b (.consume [.token tok (.buffer index)] lex : Reaction δ) :=
    .inr (.inl ⟨tok, hb, rfl, h⟩)
  have hword {tok : Tok} (post : List UInt8) {lex' : Lexer} (hpost : post ≠ [])
      (hw : InWord cfg tok [b] post lex') :
      Looked cfg index b (.consume [] lex' : Reaction δ) :=
    .inr (.inr (.inr (.inl ⟨rfl, tok, post, hpost, hw⟩)))
  rw [h.lookup.react_eq]
  refine .ite (fun hb => .inl ⟨?_, rfl, h⟩) fun _ => ?_
  · rcases hb with rfl | rfl | rfl | rfl <;> decide
  refine .ite (fun hb => hsymbol _ (hb ▸ rfl)) fun _ => ?_
  refine .ite (fun hb => hsymbol _ (hb ▸ rfl)) fun _ => ?_
  refine .ite (fun hb => hsymbol _ (hb ▸ rfl)) fun _ => ?_
  refine .ite (fun hb => hsymbol _ (hb ▸ rfl)) fun _ => ?_
  refine .ite (fun hb => hsymbol _ (hb ▸ rfl)) fun _ => ?_
  refine .ite (fun hb => hsymbol _ (hb ▸ rfl)) fun _ => ?_
  refine .ite (fun hb => .inr (.inr (.inl ⟨hb, rfl, hclear, rfl, h.nb, h.cc⟩))) fun _ => ?_
  refine .ite (fun hb => hword ("rue".toList.map Char.toUInt8) (List.cons_ne_nil _ _)
    ⟨hclear, h.nb, h.cc, rfl, .inl ⟨rfl, rfl, hb ▸ rfl⟩⟩) fun _ => ?_
  refine .ite (fun hb => hword ("alse".toList.map Char.toUInt8) (List.cons_ne_nil _ _)
    ⟨hclear, h.nb, h.cc, rfl, .inr (.inl ⟨rfl, rfl, hb ▸ rfl⟩)⟩) fun _ => ?_
  refine .ite (fun hb => hword ("ull".toList.map Char.toUInt8) (List.cons_ne_nil _ _)
    ⟨hclear, h.nb, h.cc, rfl, .inr (.inr ⟨rfl, rfl, hb ▸ rfl⟩)⟩) fun _ => ?_
  exact .ite (fun hb => absurd hb hminus) fun _ => .ite (fun _ => trivial) fun _ =>
    .ite (fun hb => absurd hb hdigit) fun _ => trivial

lemma moves_keyword {tok : Tok} (h : Ready cfg s.lex) (hx : (text, tok) ∈ keywords) :
    ∃ p, Moves cfg s text ([.token tok p] : List (LexerCall δ)) (Ready cfg) := by
  have hfirst {b : UInt8} {post : List UInt8} {lex' : Lexer} (hpost : post ≠ [])
      (hreact : react cfg (recordMagic s.lex b) s.index b = (.consume [] lex' : Reaction δ))
      (hw : InWord cfg tok [b] post lex') :
      ∃ p, Moves cfg s ([b] ++ post) ([.token tok p] : List (LexerCall δ)) (Ready cfg) := by
    obtain ⟨p, hp⟩ := moves_word (δ := δ) (s := ⟨lex', s.index + 1⟩) hbits hw hpost
    have hmoves : Moves cfg s [b] ([] : List (LexerCall δ)) fun lex => lex = lex' :=
      moves_one hreact rfl
    refine ⟨p, hmoves.append ?_⟩
    rintro lex rfl
    exact hp
  have hr (b : UInt8) := h.recordMagic b
  have hclear (b : UInt8) : NumberClear (recordMagic s.lex b) :=
    (hr b).lookup.tidy.clear (hr b).lookup.state
  have hreact (b : UInt8) := (hr b).lookup.react_eq (δ := δ) s.index b
  simp only [keywords, List.mem_cons, Prod.mk.injEq, List.not_mem_nil, or_false] at hx
  rcases hx with ⟨rfl, rfl⟩ | ⟨rfl, rfl⟩ | ⟨rfl, rfl⟩
  · exact hfirst (b := 't'.toUInt8) (List.cons_ne_nil _ _) (hreact _)
      ⟨hclear _, (hr _).nb, (hr _).cc, rfl, .inl ⟨rfl, rfl, rfl⟩⟩
  · exact hfirst (b := 'f'.toUInt8) (List.cons_ne_nil _ _) (hreact _)
      ⟨hclear _, (hr _).nb, (hr _).cc, rfl, .inr (.inl ⟨rfl, rfl, rfl⟩)⟩
  · exact hfirst (b := 'n'.toUInt8) (List.cons_ne_nil _ _) (hreact _)
      ⟨hclear _, (hr _).nb, (hr _).cc, rfl, .inr (.inr ⟨rfl, rfl, rfl⟩)⟩

lemma moves_spells {x : Lexeme δ} (h : Ready cfg s.lex) (hx : Spells cfg text x) :
    ∃ calls : List (LexerCall δ), calls.map LexerCall.forget = x.calls ∧
      Moves cfg s text calls (Ready cfg) := by
  cases hx with
  | symbol hb =>
    have hmoves := moves_gap (δ := δ) h (structural_delimiter hb)
    rw [delimiterCalls, hb] at hmoves
    exact ⟨_, rfl, hmoves⟩
  | keyword hk =>
    obtain ⟨p, hp⟩ := moves_keyword (δ := δ) hbits h hk
    exact ⟨_, rfl, hp⟩
  | string hc =>
    obtain ⟨p, q, hp⟩ := moves_string (δ := δ) hbits h hc
    refine ⟨_, ?_, hp⟩
    simp [Lexeme.calls, LexerCall.forget, charCall, Function.comp_def]

end Lookups

end Embedjson
