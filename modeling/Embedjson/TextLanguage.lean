import Embedjson.EndOfInput
import Embedjson.Lexer.TokenSpelling

namespace Embedjson

open Foundations Foundations.Program Foundations.Utf8

variable {δ : Type} [DoubleArith δ] {cfg : Config} {lex : Lexer} {b : UInt8} {s t u : Scan}
  {text bytes back : List UInt8} {calls rest : List (LexerCall δ)}

section Ends

/-- The calls of a successful `embedjson_lexer_finalize`. -/
def finalCalls (cfg : Config) (lex : Lexer) : Option (List (LexerCall δ)) :=
  match lex.state with
  | .lookupToken => some []
  | .inNumber => some [.tokeni (signedInt cfg lex) .null]
  | .inNumberFrac => some [.tokenf (negateIf lex.minus (fracDouble lex)) .null]
  | .inNumberExp => some [.tokenf (negateIf lex.minus (scaleByExp lex (fracDouble lex))) .null]
  | .inBigNumber => some [.tokenbnEnd .null]
  | _ => none

variable (cfg) in
lemma observe_finalCalls (lex : Lexer) :
    match (finalCalls cfg lex : Option (List (LexerCall δ))) with
    | some calls => observe LexerCall.isError (embedjsonLexerFinalize cfg lex) = (calls, some 0)
    | none => ∃ code, observe LexerCall.isError (embedjsonLexerFinalize (δ := δ) cfg lex) =
        ([.errorEx code .null], none) := by
  cases hs : lex.state <;> simp only [finalCalls, embedjsonLexerFinalize, hs, finalDouble_eq]
  case inString | inStringEscape | inStringUnicodeEscape | inNumberSign | inNumberExpSign | inTrue |
      inFalse | inNull => exact ⟨_, rfl⟩
  all_goals rfl

lemma AtInt.signedInt {minus : Bool} {ds : List UInt8} (hbits : 8 ≤ cfg.intBits)
    (h : AtInt cfg minus ds lex) : signedInt cfg lex = signed minus (decimal ds) := by
  obtain ⟨hv, hmax⟩ := h.inRange
  have hneg : cfg.toInt (0 - lex.intValue) = -lex.intValue :=
    (toInt_of_range hbits (by omega) (by omega)).trans (zero_sub _)
  rw [Embedjson.signedInt, signed, hneg, h.value, h.sign]

lemma Spelt.tokenises (hbits : 8 ≤ cfg.intBits) (h : Spelt cfg text lex)
    (hfinal : finalCalls cfg lex = some calls) :
    ∃ x : Lexeme δ, Tokenises cfg text [x] ∧ calls.map LexerCall.forget = x.calls := by
  have hwhole {n : Numeral} (hn : n.Readable cfg) (htext : text = n.text)
      (hcalls : calls.map LexerCall.forget = n.lexeme.calls) :
      ∃ x : Lexeme δ, Tokenises cfg text [x] ∧ calls.map LexerCall.forget = x.calls := by
    have h := Tokenises.number (δ := δ) hn (by simp) .nil
    rw [List.append_nil, ← htext] at h
    exact ⟨_, h, hcalls⟩
  cases h with
  | sign h => simp [finalCalls, h.state] at hfinal
  | @int minus ds _ hint hfits h =>
    simp only [finalCalls, h.state, Option.some.injEq] at hfinal
    subst hfinal
    refine hwhole (n := ⟨integerMantissa minus hint, none⟩) ⟨hfits, isFrac_none_mod, by simp⟩ ?_ ?_
    · rw [Numeral.text, integerMantissa_text]
      exact (List.append_nil _).symm
    · rw [List.map_singleton, LexerCall.forget, h.signedInt hbits]
      rfl
  | @frac minus ds fs _ hint hfits hfs h hfields =>
    simp only [finalCalls, h.state, Option.some.injEq] at hfinal
    subst hfinal
    by_cases hlen : fs.length % 2 ^ 16 = 0
    · exact ⟨_, .stub (.frac hint hfits hfs hlen), by
        rw [List.map_singleton, LexerCall.forget, hfields.double]; rfl⟩
    · let m := fractionMantissa minus hint ⟨hfs, ne_nil_of_length_mod hlen⟩
      have hm : ∀ gs ∈ m.frac, gs.length % 2 ^ 16 ≠ 0 := by simpa [m, fractionMantissa] using hlen
      refine hwhole (n := ⟨m, none⟩) ⟨hfits, hm, by simp⟩ (List.append_nil _).symm ?_
      rw [List.map_singleton, LexerCall.forget, hfields.double]
      rfl
  | expSign m hfits hfrac hletter h hfields => simp [finalCalls, h.state] at hfinal
  | @exp m letter sign es _ hfits hfrac hletter hsign hes hne hlimit h hfields =>
    simp only [finalCalls, h.state, Option.some.injEq] at hfinal
    subst hfinal
    have hvalue : [(LexerCall.tokenf (negateIf lex.minus (scaleByExp lex (fracDouble lex))) .null :
        LexerCall δ)].map LexerCall.forget = (Lexeme.double (doubleOf m.minus m.int
          (m.frac.getD []) (some (sign = some '-'.toUInt8, es)))).calls := by
      rw [List.map_singleton, LexerCall.forget, hfields.scaled h]
      rfl
    by_cases hempty : es = []
    · subst hempty
      obtain ⟨b, rfl⟩ := Option.ne_none_iff_exists'.mp fun hnone => hne hnone rfl
      refine ⟨_, ?_, hvalue⟩
      have hstub := Tokenises.stub (.exp (δ := δ) m hfits hfrac hletter (hsign b rfl))
      simpa using hstub
    · let n : Numeral := ⟨m, some ⟨letter, sign, es, hletter, hsign, hes, hempty⟩⟩
      have hn : n.Readable cfg := ⟨hfits, hfrac, by simpa [n, Exponent.negative] using hlimit⟩
      refine hwhole hn (List.append_assoc _ _ _) (hvalue.trans ?_)
      simp [n, Numeral.lexeme, Numeral.double, Exponent.negative]

end Ends

section Soundness

def Leads (cfg : Config) (bytes : List UInt8) (ts : List (Lexeme δ)) (back : List UInt8) : Prop :=
  ∀ more us, Tokenises cfg (back ++ more) us → Tokenises cfg (bytes ++ more) (ts ++ us)

/-- The beginning of a token up to the scan `t`, and the calls that have been made for it. -/
inductive Pending (cfg : Config) (t : Scan) : List UInt8 → List (LexerCall δ) → Prop
  | gap (h : Ready cfg t.lex) : Pending cfg t [] []
  | string {s : Scan} {content out : List UInt8} {p : Pointer} (hs : AtText cfg s.lex)
      (hrun : (scanner (δ := δ) cfg).run s content = (out.map charCall, .ok t))
      (h : Reads content out t.lex) :
      Pending cfg t ('\"'.toUInt8 :: content) (.tokencBegin p :: out.map charCall)
  | word {tok : Tok} {pre post : List UInt8} (hpost : post ≠ []) (h : InWord cfg tok pre post t.lex) :
      Pending cfg t pre []
  | number {text : List UInt8} (h : Spelt cfg text t.lex) (hnb : t.lex.nb = 0) (hcc : t.lex.cc = 0) :
      Pending cfg t text []

/-- The bytes are some tokens and the beginning of another one. -/
def Lexed (cfg : Config) (bytes : List UInt8) (calls : List (LexerCall δ)) (t : Scan) : Prop :=
  ∃ front back done rest, ∃ ts : List (Lexeme δ), bytes = front ++ back ∧ calls = done ++ rest ∧
    done.map LexerCall.forget = ts.flatMap Lexeme.calls ∧ Leads cfg bytes ts back ∧
    Pending cfg t back rest

lemma leads_nil (bytes : List UInt8) : Leads cfg bytes ([] : List (Lexeme δ)) bytes :=
  fun _ _ h => h

lemma Pending.lexed (h : Pending cfg t back rest) : Lexed cfg back rest t :=
  ⟨[], back, [], rest, [], rfl, rfl, rfl, leads_nil back, h⟩

lemma Lexed.prepend {before : List UInt8} {done : List (LexerCall δ)} {ts : List (Lexeme δ)}
    (h : Lexed cfg back rest t) (hdone : done.map LexerCall.forget = ts.flatMap Lexeme.calls)
    (hleads : Leads cfg (before ++ back) ts back) : Lexed cfg (before ++ back) (done ++ rest) t := by
  obtain ⟨front, back', done', rest', us, rfl, rfl, hcalls, hleads', hpending⟩ := h
  refine ⟨before ++ front, back', done ++ done', rest', ts ++ us, ?_, ?_, ?_, ?_, hpending⟩
  · rw [List.append_assoc]
  · rw [List.append_assoc]
  · rw [List.map_append, List.flatMap_append, hdone, hcalls]
  · rintro more vs hvs
    have hall := hleads _ _ (hleads' more vs hvs)
    rwa [← List.append_assoc ts] at hall

lemma scanStep_again (h : react cfg (recordMagic s.lex b) s.index b = .unread calls lex) :
    scanStep (δ := δ) cfg s b =
      (calls ++ (scanStep cfg ⟨lex, s.index⟩ b).1, (scanStep (δ := δ) cfg ⟨lex, s.index⟩ b).2) := by
  have hs : (recordMagic lex b).state = .lookupToken := by rw [recordMagic_state, react_unread_state h]
  rw [scanStep, scanStep, h]
  dsimp only
  cases hreact : (react cfg (recordMagic lex b) s.index b : Reaction δ) with
  | consume calls' lex' => rfl
  | reject code => simp
  | unread calls' lex' => exact absurd hreact (react_ne_unread hs _ _ _ _)

variable (hbits : 8 ≤ cfg.intBits)

include hbits

lemma Ready.lexed (h : Ready cfg s.lex) (hstep : scanStep cfg s b = (calls, .ok t)) :
    Lexed cfg [b] calls t := by
  have hlooked := (h.recordMagic b).looked (δ := δ) hbits s.index b
  rw [scanStep] at hstep
  cases hreact : (react cfg (Embedjson.recordMagic s.lex b) s.index b : Reaction δ) with
  | reject code => simp [hreact] at hstep
  | unread calls' lex' =>
    rw [hreact] at hlooked
    exact hlooked.elim
  | consume calls' lex' =>
    rw [hreact] at hlooked hstep
    cases hstep
    have hgap (ts : List (Lexeme δ)) (hready : Ready cfg lex')
        (hcalls : calls.map LexerCall.forget = ts.flatMap Lexeme.calls)
        (hleads : Leads cfg [b] ts []) : Lexed cfg [b] calls ⟨lex', s.index + 1⟩ :=
      ⟨[b], [], calls, [], ts, rfl, (List.append_nil _).symm, hcalls, hleads, .gap hready⟩
    rcases hlooked with ⟨hb, rfl, hready⟩ | ⟨tok, hb, rfl, hready⟩ | ⟨rfl, rfl, htext⟩ |
      ⟨rfl, tok, post, hpost, hword⟩ | ⟨rfl, hread, hnb, hcc⟩
    · exact hgap [] hready rfl fun more us hus => .space hb hus
    · exact hgap [.tok tok] hready rfl fun more us hus => .token (.symbol hb) hus
    · have hreads : Reads [] [] lex' := by
        rw [Reads, htext.text.state]
        exact .nil
      have hpending : Pending cfg ⟨lex', s.index + 1⟩ ['\"'.toUInt8]
          (.tokencBegin (.buffer s.index) :: [].map charCall : List (LexerCall δ)) :=
        .string htext rfl hreads
      exact hpending.lexed
    · exact (Pending.word hpost hword).lexed
    · exact (Pending.number hread hnb hcc).lexed

lemma string_step {content out : List UInt8} {p : Pointer} (hs : AtText cfg s.lex)
    (hrun : (scanner (δ := δ) cfg).run s content = (out.map charCall, .ok t))
    (h : Reads content out t.lex) (hstep : scanStep cfg t b = (calls, .ok u))
    (hutf8 : cfg.validateUtf8 = true → b = '\"'.toUInt8 → WellFormed content) :
    Lexed cfg ('\"'.toUInt8 :: content ++ [b])
      (.tokencBegin p :: out.map charCall ++ calls : List (LexerCall δ)) u := by
  rcases scanStep_delivered h hstep with ⟨q, rfl, hd⟩ | ⟨more, rfl, hreads⟩
  · obtain ⟨-, ⟨hf, -⟩ | ⟨-, rfl, -⟩⟩ := scanStep_inside_ok h.inside hstep
    · simp [LexerCall.isChunk] at hf
    have hcontent := content_of_run (fun hv => hutf8 hv rfl) hs hrun hstep hd
    obtain ⟨lex, hrun', htext⟩ := moves_content (δ := δ) hbits hs hcontent
    cases hrun.symm.trans hrun'
    obtain ⟨lex', hclose, hready⟩ := moves_close (δ := δ) (s := ⟨lex, _⟩) hbits htext
    rw [Transducer.run_singleton] at hclose
    cases hstep.symm.trans hclose
    refine ⟨_, [], _, [], [.string (out.map fun b => [b])], (List.append_nil _).symm,
      (List.append_nil _).symm, ?_, fun more us hus => .token (.string hcontent) hus, .gap hready⟩
    simp [Lexeme.calls, LexerCall.forget, charCall, Function.comp_def]
  · have hrun' : (scanner (δ := δ) cfg).run s (content ++ [b]) =
        ((out ++ more).map charCall, .ok u) := by
      have hlast : (scanner (δ := δ) cfg).run t [b] = (more.map charCall, .ok u) := by
        rw [Transducer.run_singleton]
        exact hstep
      rw [Transducer.run_append_ok _ hrun, hlast, List.map_append]
    have hpending := Pending.string (p := p) hs hrun' hreads
    rw [List.map_append] at hpending
    exact hpending.lexed

lemma number_step (h : Spelt cfg text t.lex) (hnb : t.lex.nb = 0) (hcc : t.lex.cc = 0)
    (hstep : scanStep cfg t b = (calls, .ok u)) :
    Lexed cfg (text ++ [b]) calls u ∨ ∃ p v, .tokenbnBegin p v ∈ calls := by
  have hr := h.recordMagic b
  have hout : (recordMagic t.lex b).inside = false := by
    cases hr with
    | sign h | int _ _ h | frac _ _ _ h _ | expSign _ _ _ _ h _ | exp _ _ _ _ _ _ _ _ h _ =>
      simp only [Lexer.inside, h.state]
  have hstays := react_staysOutside (δ := δ) cfg hout t.index b
  have hcontinued := hr.continued (δ := δ) hbits b t.index
  cases hreact : (react cfg (recordMagic t.lex b) t.index b : Reaction δ) with
  | reject code => cases (scanStep_reject hreact).symm.trans hstep
  | consume calls' lex' =>
    rw [hreact] at hstays hcontinued
    cases (scanStep_consume hreact).symm.trans hstep
    rcases hcontinued with ⟨rfl, hread⟩ | ⟨p, v, rfl⟩
    · refine .inl (Pending.number hread ?_ ?_).lexed
      · exact hstays.1.trans ((recordMagic_nb _ _).trans hnb)
      · exact hstays.2.1.trans ((recordMagic_cc _ _).trans hcc)
    · exact .inr ⟨p, v, List.mem_singleton_self _⟩
  | unread calls' lex' =>
    rw [hreact] at hstays hcontinued
    obtain ⟨hlookup, n, rfl, hn, hb, hcalls⟩ := hcontinued
    have hready : Ready cfg lex' := ⟨hlookup, hstays.1.trans ((recordMagic_nb _ _).trans hnb),
      hstays.2.1.trans ((recordMagic_cc _ _).trans hcc)⟩
    rw [scanStep_again hreact, Prod.mk.injEq] at hstep
    obtain ⟨rfl, hu⟩ := hstep
    have hleads : Leads cfg (n.text ++ [b]) [(n.lexeme : Lexeme δ)] [b] := by
      intro more us hus
      rw [List.append_assoc]
      exact .number hn (by simpa using hb) hus
    have hnext := hready.lexed (s := ⟨lex', t.index⟩) hbits (Prod.ext rfl hu)
    exact .inl (hnext.prepend (by simpa using hcalls) hleads)

lemma Pending.step (h : Pending cfg t back rest) (hstep : scanStep cfg t b = (calls, .ok u))
    (hutf8 : cfg.validateUtf8 = true → ∃ before more, WellFormed (before ++ back ++ b :: more)) :
    Lexed cfg (back ++ [b]) (rest ++ calls) u ∨ ∃ p v, .tokenbnBegin p v ∈ calls := by
  cases h with
  | gap h => exact .inl (h.lexed hbits hstep)
  | @string s content out p hs hrun h =>
    refine .inl (string_step hbits hs hrun h hstep ?_)
    rintro hv rfl
    obtain ⟨before, more, hwf⟩ := hutf8 hv
    exact ((hwf.split (by decide)).1.split (by decide)).2
  | @word tok pre post hpost h =>
    obtain ⟨c, post, rfl⟩ := List.exists_cons_of_ne_nil hpost
    have hletter := (h.recordMagic b).letter (δ := δ) hbits t.index b
    cases hreact : (react cfg (recordMagic t.lex b) t.index b : Reaction δ) with
    | reject code => cases (scanStep_reject hreact).symm.trans hstep
    | unread calls' lex' =>
      rw [hreact] at hletter
      exact hletter.elim
    | consume calls' lex' =>
      rw [hreact] at hletter
      cases (scanStep_consume hreact).symm.trans hstep
      obtain ⟨rfl, ⟨rfl, rfl, hready⟩ | ⟨hne, rfl, hword⟩⟩ := hletter
      · refine .inl ⟨_, [], _, [], [.tok tok], (List.append_nil _).symm, (List.append_nil _).symm,
          rfl, fun more us hus => .token (.keyword ?_) hus, .gap hready⟩
        simp only [keywords, List.mem_cons, Prod.mk.injEq, List.not_mem_nil, or_false]
        rcases h.word with ⟨-, rfl, hw⟩ | ⟨-, rfl, hw⟩ | ⟨-, rfl, hw⟩
        · exact .inl ⟨hw.symm, rfl⟩
        · exact .inr (.inl ⟨hw.symm, rfl⟩)
        · exact .inr (.inr ⟨hw.symm, rfl⟩)
      · exact .inl (Pending.word hne hword).lexed
  | number h hnb hcc => exact number_step hbits h hnb hcc hstep

/-- The scanner has read some tokens and the beginning of another one, or a big number. -/
theorem lexed_of_run (h : Ready cfg s.lex)
    (hutf8 : cfg.validateUtf8 = true → ∃ more, WellFormed (bytes ++ more))
    (hrun : (scanner cfg).run s bytes = (calls, .ok t)) :
    Lexed cfg bytes calls t ∨ ∃ p v, .tokenbnBegin p v ∈ calls := by
  induction bytes using List.reverseRecOn generalizing calls t with
  | nil =>
    cases hrun
    exact .inl (Pending.gap h).lexed
  | append_singleton bytes b ih =>
    rcases hbytes : (scanner (δ := δ) cfg).run s bytes with ⟨before, code | u⟩
    · rw [Transducer.run_append_error _ hbytes] at hrun
      cases hrun
    rw [Transducer.run_append_ok _ hbytes, Transducer.run_singleton, Prod.mk.injEq] at hrun
    obtain ⟨rfl, hstep⟩ := hrun
    have hwf (hv : cfg.validateUtf8 = true) : ∃ more, WellFormed (bytes ++ b :: more) := by
      obtain ⟨more, hmore⟩ := hutf8 hv
      exact ⟨more, by simpa using hmore⟩
    rcases ih (fun hv => (hwf hv).imp' _ fun _ => id) hbytes with hlexed | ⟨p, v, hmem⟩
    · obtain ⟨front, back, done, rest, ts, rfl, rfl, hcalls, hleads, hpending⟩ := hlexed
      have hnext := hpending.step hbits (Prod.ext rfl hstep) fun hv => ⟨front, hwf hv⟩
      rcases hnext with hnext | ⟨p, v, hmem⟩
      · rw [List.append_assoc, List.append_assoc]
        refine .inl (hnext.prepend hcalls fun more us hus => ?_)
        have hall := hleads ([b] ++ more) us (by simpa using hus)
        simpa using hall
      · exact .inr ⟨p, v, List.mem_append_right _ hmem⟩
    · exact .inr ⟨p, v, List.mem_append_left _ hmem⟩

lemma Lexed.tokenises {final : List (LexerCall δ)} (h : Lexed cfg bytes calls t)
    (hfinal : finalCalls cfg t.lex = some final) :
    ∃ ts : List (Lexeme δ), Tokenises cfg bytes ts ∧
      (calls ++ final).map LexerCall.forget = ts.flatMap Lexeme.calls := by
  obtain ⟨front, back, done, rest, ts, rfl, rfl, hcalls, hleads, hpending⟩ := h
  have hend {us : List (Lexeme δ)} (hback : Tokenises cfg back us)
      (hus : (rest ++ final).map LexerCall.forget = us.flatMap Lexeme.calls) :
      ∃ ts : List (Lexeme δ), Tokenises cfg (front ++ back) ts ∧
        (done ++ rest ++ final).map LexerCall.forget = ts.flatMap Lexeme.calls := by
    refine ⟨ts ++ us, by simpa using hleads [] us (by simpa using hback), ?_⟩
    rw [List.append_assoc, List.map_append, List.flatMap_append, hcalls, hus]
  cases hpending with
  | gap h =>
    simp only [finalCalls, h.lookup.state, Option.some.injEq] at hfinal
    subst hfinal
    exact hend .nil rfl
  | string hs hrun h =>
    have hin := h.inside
    cases hstate : t.lex.state <;> simp [finalCalls, Lexer.inside, hstate] at hfinal hin
  | word hpost h =>
    rcases h.word with ⟨hs, -⟩ | ⟨hs, -⟩ | ⟨hs, -⟩ <;> simp [finalCalls, hs] at hfinal
  | number h hnb hcc =>
    obtain ⟨x, hx, hcalls⟩ := h.tokenises hbits hfinal
    exact hend hx (by simpa using hcalls)

end Soundness

section Completeness

lemma run_outside (hs : s.lex.inside = false)
    (hrun : (scanner cfg).run s bytes = (calls, .ok t)) (hcalls : ∀ p, .tokencBegin p ∉ calls) :
    t.lex.nb = s.lex.nb ∧ t.lex.cc = s.lex.cc ∧ t.lex.inside = false := by
  have hkeeps := (scanner cfg).run_invariant (P := fun _ calls t => (∀ p, .tokencBegin p ∉ calls) →
    t.lex.nb = s.lex.nb ∧ t.lex.cc = s.lex.cc ∧ t.lex.inside = false)
    (fun _ => ⟨rfl, rfl, hs⟩) ?_ hrun
  · exact hkeeps hcalls
  rintro _ before t b ps u h hstep hno
  obtain ⟨hnb, hcc, hin⟩ := h fun p hp => hno p (List.mem_append_left _ hp)
  have hout := scanStep_outside (δ := δ) cfg hin b
  rw [OutsideStep, show scanStep cfg t b = (ps, .ok u) from hstep] at hout
  obtain ⟨-, hnb', hcc', ⟨-, hin'⟩ | ⟨before', rfl, -⟩⟩ := hout
  · exact ⟨hnb'.trans hnb, hcc'.trans hcc, hin'⟩
  · exact absurd (List.mem_append_right _ (List.mem_append_right _ (List.mem_singleton_self _)))
      (hno _)

variable (hbits : 8 ≤ cfg.intBits)

include hbits

lemma Behind.final {n : Numeral} (h : Behind cfg n lex) : ∃ f : LexerCall δ,
    finalCalls cfg lex = some [f] ∧ [f.forget] = n.lexeme.calls := by
  obtain ⟨⟨minus, ds, frac, hint, hfrac⟩, exp⟩ := n
  obtain ⟨hreached, hfields⟩ := h
  cases exp with
  | some e =>
    simp only [Option.elim_some] at hreached
    refine ⟨.tokenf (negateIf lex.minus (scaleByExp lex (fracDouble lex))) .null, ?_, ?_⟩
    · simp only [finalCalls, hreached.state]
    simp only [LexerCall.forget, hfields.scaled hreached]
    simp [Numeral.lexeme, Numeral.double, Lexeme.calls]
  | none =>
    cases frac with
    | none =>
      have hreached : AtInt cfg minus ds lex := hreached
      refine ⟨.tokeni (signedInt cfg lex) .null, by simp only [finalCalls, hreached.state], ?_⟩
      rw [LexerCall.forget, hreached.signedInt hbits]
      rfl
    | some fs =>
      have hreached : AtFrac cfg fs lex := hreached
      refine ⟨.tokenf (negateIf lex.minus (fracDouble lex)) .null, ?_, ?_⟩
      · simp only [finalCalls, hreached.state]
      simp only [LexerCall.forget, hfields.double]
      simp [Numeral.lexeme, Numeral.double, Lexeme.calls]

def Scans (cfg : Config) (s : Scan) (bytes : List UInt8) (ts : List (Lexeme δ)) : Prop :=
  ∃ calls t final, (scanner cfg).run s bytes = (calls, .ok t) ∧
    finalCalls cfg t.lex = some final ∧
    (calls ++ final).map LexerCall.forget = ts.flatMap Lexeme.calls

omit hbits in
lemma Scans.prepend {before : List UInt8} {done : List (LexerCall δ)} (ts : List (Lexeme δ))
    {us : List (Lexeme δ)} (hbefore : (scanner cfg).run s before = (done, .ok t))
    (hdone : done.map LexerCall.forget = ts.flatMap Lexeme.calls) (h : Scans cfg t bytes us) :
    Scans cfg s (before ++ bytes) (ts ++ us) := by
  obtain ⟨calls, u, final, hrun, hfinal, hcalls⟩ := h
  refine ⟨done ++ calls, u, final, ?_, hfinal, ?_⟩
  · rw [Transducer.run_append_ok _ hbefore, hrun]
  · rw [List.append_assoc, List.map_append, List.flatMap_append, hdone, hcalls]

omit hbits in
lemma Scans.again (ts : List (Lexeme δ)) {us : List (Lexeme δ)}
    (h : react cfg (recordMagic s.lex b) s.index b = .unread calls lex)
    (hcalls : calls.map LexerCall.forget = ts.flatMap Lexeme.calls)
    (hrest : Scans cfg ⟨lex, s.index⟩ (b :: bytes) us) : Scans cfg s (b :: bytes) (ts ++ us) := by
  obtain ⟨more, u, final, hrun, hfinal, hmore⟩ := hrest
  refine ⟨calls ++ more, u, final, ?_, hfinal, ?_⟩
  · rcases hstep : scanStep (δ := δ) cfg ⟨lex, s.index⟩ b with ⟨ps, code | t⟩
    · rw [Transducer.run_cons_error _ hstep] at hrun
      cases hrun
    · have hagain := scanStep_again h
      rw [hstep] at hagain
      rw [Transducer.run_cons_ok _ hstep, Prod.mk.injEq] at hrun
      rw [Transducer.run_cons_ok _ hagain, ← hrun.1, hrun.2, List.append_assoc]
  · rw [List.append_assoc, List.map_append, List.flatMap_append, hcalls, hmore]

theorem Tokenises.scans {ts : List (Lexeme δ)} (h : Tokenises cfg bytes ts) (hs : Ready cfg s.lex) :
    Scans cfg s bytes ts := by
  induction h generalizing s with
  | nil =>
    refine ⟨[], s, [], rfl, ?_, rfl⟩
    simp only [finalCalls, hs.lookup.state]
  | space hb h ih =>
    obtain ⟨hd, hnone⟩ := whitespace_delimiter hb
    have hmoves := moves_gap (δ := δ) hs hd
    rw [delimiterCalls, hnone] at hmoves
    obtain ⟨lex, hrun, hready⟩ := hmoves
    exact Scans.prepend [] hrun rfl (ih (s := ⟨lex, _⟩) hready)
  | token hx h ih =>
    obtain ⟨calls, hcalls, lex, hrun, hready⟩ := moves_spells (δ := δ) hbits hs hx
    exact Scans.prepend [_] hrun (by simpa using hcalls) (ih (s := ⟨lex, _⟩) hready)
  | @number n rest ts hn hend h ih =>
    obtain ⟨lex, hrun, hlex⟩ := moves_behind (δ := δ) hbits hs.lookup hn
    obtain ⟨hnb, hcc, -⟩ := run_outside hs.outside hrun (by simp)
    have hrest : Scans cfg ⟨lex, s.index + n.text.length⟩ rest (n.lexeme :: ts) := by
      cases rest with
      | nil =>
        obtain ⟨f, hfinal, hf⟩ := hlex.final (δ := δ) hbits
        obtain ⟨_, _, _, hzero, hnone, hts⟩ := ih (s := ⟨.zero, 0⟩) (ready_zero cfg)
        cases hzero
        cases hnone
        refine ⟨[], _, [f], rfl, hfinal, ?_⟩
        rw [List.nil_append, List.map_singleton, hf, List.flatMap_cons, ← hts]
        exact (List.append_nil _).symm
      | cons b rest =>
        obtain ⟨f, lex', hreact, hf, hlookup⟩ := (hlex.recordMagic b).ends (δ := δ) hbits hn
          (hend b (by simp)) (s.index + n.text.length)
        have hin : (recordMagic lex b).inside = false := by
          have hin := (run_outside hs.outside hrun (by simp)).2.2
          simpa [Lexer.inside] using hin
        have hstays := react_staysOutside (δ := δ) cfg hin (s.index + n.text.length) b
        rw [hreact] at hstays
        have hready : Ready cfg lex' := by
          refine ⟨hlookup, ?_, ?_⟩
          · exact hstays.1.trans ((recordMagic_nb _ _).trans (hnb.trans hs.nb))
          · exact hstays.2.1.trans ((recordMagic_cc _ _).trans (hcc.trans hs.cc))
        exact Scans.again [n.lexeme] hreact (by simpa using hf) (ih (s := ⟨lex', _⟩) hready)
    exact Scans.prepend [] hrun rfl hrest
  | stub hv =>
    obtain ⟨lex, hrun, hlex⟩ := moves_stub (δ := δ) hbits hs.lookup hv
    rcases hlex with ⟨hstate, rfl⟩ | ⟨hstate, rfl⟩
    · exact ⟨[], _, [.tokenf (negateIf lex.minus (fracDouble lex)) .null], hrun,
        by simp only [finalCalls, hstate], rfl⟩
    · exact ⟨[], _, [.tokenf (negateIf lex.minus (scaleByExp lex (fracDouble lex))) .null], hrun,
        by simp only [finalCalls, hstate], rfl⟩

end Completeness

section Tokens

omit [DoubleArith δ]

lemma string_append_inj {x y : Text} {l m : List (LexerCall δ)}
    (h : x.map (.tokenc .null) ++ .tokencEnd .null :: l =
      y.map (.tokenc .null) ++ .tokencEnd .null :: m) : x = y ∧ l = m := by
  induction x generalizing y with
  | nil =>
    cases y with
    | nil => exact ⟨rfl, (List.cons.inj h).2⟩
    | cons b y => simp at h
  | cons a x ih =>
    cases y with
    | nil => simp at h
    | cons b y =>
      obtain ⟨hab, hrest⟩ := List.cons.inj h
      obtain ⟨rfl, rfl⟩ := ih hrest
      cases hab
      exact ⟨rfl, rfl⟩

lemma Lexeme.calls_append_inj {x y : Lexeme δ} {l m : List (LexerCall δ)}
    (h : x.calls ++ l = y.calls ++ m) : x = y ∧ l = m := by
  cases x <;> cases y <;> simp only [Lexeme.calls, List.cons_append, List.nil_append,
    List.append_assoc, List.cons.injEq, reduceCtorEq, false_and, LexerCall.token.injEq,
    LexerCall.tokeni.injEq, LexerCall.tokenf.injEq, and_true, true_and] at h
  case string.string =>
    obtain ⟨rfl, rfl⟩ := string_append_inj h
    exact ⟨rfl, rfl⟩
  all_goals
    obtain ⟨rfl, rfl⟩ := h
    exact ⟨rfl, rfl⟩

lemma Lexeme.calls_ne_nil (x : Lexeme δ) : x.calls ≠ [] := by
  cases x <;> exact List.cons_ne_nil _ _

lemma lexemes_inj {ts us : List (Lexeme δ)}
    (h : ts.flatMap Lexeme.calls = us.flatMap Lexeme.calls) : ts = us := by
  induction ts generalizing us with
  | nil =>
    cases us with
    | nil => rfl
    | cons y us => exact absurd (List.append_eq_nil_iff.mp h.symm).1 y.calls_ne_nil
  | cons x ts ih =>
    cases us with
    | nil => exact absurd (List.append_eq_nil_iff.mp h).1 x.calls_ne_nil
    | cons y us =>
      obtain ⟨rfl, hrest⟩ := Lexeme.calls_append_inj h
      rw [ih hrest]

end Tokens

section Runs

/-- All pushes of a user of the lexer, and the end of the input. -/
def lexAll (cfg : Config) (chunks : List (List UInt8)) : Program (LexerCall δ) ℤ :=
  (lexerPushAll cfg .zero chunks).bind fun a =>
    if a.1 ≠ 0 then .done a.1 else embedjsonLexerFinalize cfg a.2

lemma lexAll_failsFast (cfg : Config) (chunks : List (List UInt8)) :
    FailsFast id (lexAll cfg chunks : Program (LexerCall δ) ℤ) := by
  refine (lexerPushAll_failsFast cfg .zero chunks).bind (fun a ha => ?_) fun a ha => ?_
  · rw [if_neg (not_not.mpr ha)]
    exact embedjsonLexerFinalize_failsFast a.2
  · exact ⟨a.1, if_pos ha, rfl⟩

/-- The run succeeds and hands over the tokens, a string byte by byte. -/
def Lexes (cfg : Config) (answer : List (LexerCall δ) → LexerCall δ → ℤ)
    (chunks : List (List UInt8)) (ts : List (Lexeme δ)) : Prop :=
  (run answer (lexAll cfg chunks) []).2 = 0 ∧
    (run answer (lexAll cfg chunks) []).1.flatMap LexerCall.pieces = ts.flatMap Lexeme.calls

lemma finalCalls_pieces {final : List (LexerCall δ)} (h : finalCalls cfg lex = some final) :
    final.flatMap LexerCall.pieces = final.map LexerCall.forget := by
  cases hs : lex.state <;> simp only [finalCalls, hs, Option.some.injEq, reduceCtorEq] at h
  all_goals
    subst h
    rfl

variable (cfg) in
lemma observe_lexAll (chunks : List (List UInt8)) :
    (∃ calls t final l, (scanner (δ := δ) cfg).run ⟨.zero, 0⟩ chunks.flatten = (calls, .ok t) ∧
      finalCalls cfg t.lex = some final ∧
      observe LexerCall.isError (lexAll cfg chunks) = (l, some 0) ∧
      l.flatMap LexerCall.pieces = (calls ++ final).map LexerCall.forget) ∨
    ((∀ ts : List (Lexeme δ), ¬Scans cfg ⟨.zero, 0⟩ chunks.flatten ts) ∧
      (observe LexerCall.isError (lexAll (δ := δ) cfg chunks)).2 = none) := by
  have htells := lexerPushAll_tells (δ := δ) cfg .zero 0 chunks
  rcases hrun : (scanner (δ := δ) cfg).run ⟨.zero, 0⟩ chunks.flatten with ⟨calls, code | t⟩
  · rw [hrun] at htells
    refine .inr ⟨?_, ?_⟩
    · rintro ts ⟨_, _, _, hok, -⟩
      cases hrun.symm.trans hok
    · rw [lexAll, observe_bind, followedBy, htells.1]
  · rw [hrun] at htells
    obtain ⟨hsome, hpieces, -⟩ := htells
    have hfinal := observe_finalCalls (δ := δ) cfg t.lex
    have hpush : observe LexerCall.isError (lexerPushAll (δ := δ) cfg .zero chunks) =
        ((observe LexerCall.isError (lexerPushAll cfg .zero chunks)).1, some (0, t.lex)) :=
      Prod.ext rfl hsome
    cases hcalls : (finalCalls cfg t.lex : Option (List (LexerCall δ))) with
    | none =>
      rw [hcalls] at hfinal
      obtain ⟨code, hfinal⟩ := hfinal
      refine .inr ⟨?_, ?_⟩
      · rintro ts ⟨_, _, _, hok, hsome, -⟩
        cases hrun.symm.trans hok
        cases hcalls.symm.trans hsome
      · rw [lexAll, observe_bind, hpush, followedBy_some, if_neg (by simp), hfinal]
    | some final =>
      rw [hcalls] at hfinal
      refine .inl ⟨calls, t, final,
        (observe LexerCall.isError (lexerPushAll cfg .zero chunks)).1 ++ final, rfl, hcalls, ?_, ?_⟩
      · rw [lexAll, observe_bind, hpush, followedBy_some, if_neg (by simp), hfinal]
      · rw [List.flatMap_append, hpieces, finalCalls_pieces hcalls, List.map_append]

omit [DoubleArith δ] in
lemma lexeme_not_big {ts : List (Lexeme δ)} {p : Pointer} {v : ℤ} :
    .tokenbnBegin p v ∉ ts.flatMap Lexeme.calls := by
  simp only [List.mem_flatMap, not_exists, not_and]
  intro x _
  cases x <;> simp [Lexeme.calls]

lemma exists_tokens {final : List (LexerCall δ)} (hbits : 8 ≤ cfg.intBits)
    (hutf8 : cfg.validateUtf8 = true → WellFormed bytes)
    (hrun : (scanner cfg).run ⟨.zero, 0⟩ bytes = (calls, .ok t))
    (hfinal : finalCalls cfg t.lex = some final) (hbig : ∀ p v, .tokenbnBegin p v ∉ calls) :
    ∃ ts : List (Lexeme δ), Tokenises cfg bytes ts ∧
      (calls ++ final).map LexerCall.forget = ts.flatMap Lexeme.calls := by
  have hwf (hv : cfg.validateUtf8 = true) : ∃ more, WellFormed (bytes ++ more) :=
    ⟨[], by simpa using hutf8 hv⟩
  rcases lexed_of_run hbits (s := ⟨.zero, 0⟩) (ready_zero cfg) hwf hrun with hlexed | ⟨p, v, hmem⟩
  · exact hlexed.tokenises hbits hfinal
  · exact absurd hmem (hbig p v)

lemma scans_iff_tokenises (hbits : 8 ≤ cfg.intBits)
    (hutf8 : cfg.validateUtf8 = true → WellFormed bytes) (ts : List (Lexeme δ)) :
    Scans cfg ⟨.zero, 0⟩ bytes ts ↔ Tokenises cfg bytes ts := by
  constructor
  · rintro ⟨calls, t, final, hrun, hfinal, hts⟩
    have hbig (p : Pointer) (v : ℤ) : .tokenbnBegin p v ∉ calls := by
      intro hmem
      have hforget := List.mem_map_of_mem (f := LexerCall.forget)
        (List.mem_append_left final hmem)
      rw [hts] at hforget
      exact lexeme_not_big hforget
    obtain ⟨us, hus, hcalls⟩ := exists_tokens hbits hutf8 hrun hfinal hbig
    rwa [lexemes_inj (hts.symm.trans hcalls)]
  · intro h
    exact h.scans hbits (ready_zero cfg)

variable {answer : List (LexerCall δ) → LexerCall δ → ℤ} {chunks : List (List UInt8)}

theorem lexes_iff_tokenises (hbits : 8 ≤ cfg.intBits) (hA : Accepting LexerCall.isError answer)
    (hutf8 : cfg.validateUtf8 = true → WellFormed chunks.flatten) (ts : List (Lexeme δ)) :
    Lexes cfg answer chunks ts ↔ Tokenises cfg chunks.flatten ts := by
  rw [← scans_iff_tokenises hbits hutf8]
  obtain ⟨h₁, h₂, h₃⟩ := (lexAll_failsFast (δ := δ) cfg chunks).run_accepting hA []
  rw [Lexes, h₁]
  rcases observe_lexAll (δ := δ) cfg chunks with
    ⟨calls, t, final, l, hrun, hfinal, hobserve, hpieces⟩ | ⟨hno, hnone⟩
  · rw [h₂ 0 (by rw [hobserve]), hobserve, hpieces]
    constructor
    · rintro ⟨-, hts⟩
      exact ⟨calls, t, final, hrun, hfinal, hts⟩
    · rintro ⟨_, _, _, hrun', hfinal', hts⟩
      cases hrun.symm.trans hrun'
      cases hfinal.symm.trans hfinal'
      exact ⟨rfl, hts⟩
  · constructor
    · rintro ⟨hzero, -⟩
      exact absurd hzero (h₃ hnone)
    · intro h
      exact absurd h (hno ts)

end Runs

/-- The array `["é",-12]`. -/
theorem lexes_iff_tokenises_array :
    Tokenises .default [91, 34, 195, 169, 34, 44, 45, 49, 50, 93]
      [(.tok .openBracket : Lexeme ℚ), .string [[195], [169]], .tok .comma, .int (-12),
        .tok .closeBracket] :=
  (lexes_iff_tokenises (by decide) (accepting_accept _) (fun _ => ⟨"[\"é\",-12]".toList, by decide⟩)
    _).mp (⟨by decide, by decide⟩ : Lexes .default (accept LexerCall.isError)
      [[91, 34, 195], [169, 34, 44, 45, 49, 50, 93]] _)

end Embedjson
