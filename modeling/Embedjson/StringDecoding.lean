import Embedjson.Lexer.Regions

namespace Embedjson

open Foundations Foundations.Program

variable {δ : Type}

def simpleEscapes : List (UInt8 × UInt8) :=
  [('\"'.toUInt8, 0x22), ('\\'.toUInt8, 0x5c), ('/'.toUInt8, 0x2f), ('b'.toUInt8, 0x08),
    ('f'.toUInt8, 0x0c), ('n'.toUInt8, 0x0a), ('r'.toUInt8, 0x0d), ('t'.toUInt8, 0x09)]

def hexDigits : List (UInt8 × ℕ) :=
  ("0123456789abcdef".toList.map Char.toUInt8).zipIdx ++
    ("0123456789ABCDEF".toList.map Char.toUInt8).zipIdx

/-- The content of a literal and the bytes it stands for. -/
inductive Decodes : List UInt8 → List UInt8 → Prop
  | nil : Decodes [] []
  | byte {b : UInt8} {rest out : List UInt8} (hslash : b ≠ '\\'.toUInt8) (hquote : b ≠ '\"'.toUInt8)
      (h : Decodes rest out) : Decodes (b :: rest) (b :: out)
  | escape {letter e : UInt8} {rest out : List UInt8} (he : (letter, e) ∈ simpleEscapes)
      (h : Decodes rest out) : Decodes ('\\'.toUInt8 :: letter :: rest) (e :: out)
  | unicode {a b c d : UInt8} {w x y z : ℕ} {rest out : List UInt8} (ha : (a, w) ∈ hexDigits)
      (hb : (b, x) ∈ hexDigits) (hc : (c, y) ∈ hexDigits) (hd : (d, z) ∈ hexDigits)
      (h : Decodes rest out) :
      Decodes ('\\'.toUInt8 :: 'u'.toUInt8 :: a :: b :: c :: d :: rest)
        (UInt8.ofNat (16 * w + x) :: UInt8.ofNat (16 * y + z) :: out)

lemma Decodes.append {content content' out out' : List UInt8} (h : Decodes content out)
    (h' : Decodes content' out') : Decodes (content ++ content') (out ++ out') := by
  induction h with
  | nil => exact h'
  | byte hslash hquote _ ih => exact .byte hslash hquote ih
  | escape he _ ih => exact .escape he ih
  | unicode ha hb hc hd _ ih => exact .unicode ha hb hc hd ih

section Tables

lemma escape_tables (b : UInt8) :
    (∀ e, escapeByte b = some e → (b, e) ∈ simpleEscapes) ∧
      ∀ v, hexDigit b = some v → (b, v.toNat) ∈ hexDigits ∧ v.toNat < 16 := by
  have h : ∀ b : UInt8, ((escapeByte b).all fun e => (b, e) ∈ simpleEscapes) ∧
      (hexDigit b).all fun v => (b, v.toNat) ∈ hexDigits ∧ v.toNat < 16 := by decide +kernel
  refine ⟨fun e he => ?_, fun v hv => ?_⟩
  · simpa [he] using (h b).1
  · simpa [hv] using (h b).2

lemma pair_eq {v w : UInt8} (hv : v.toNat < 16) (hw : w.toNat < 16) :
    v <<< 4 ||| w = UInt8.ofNat (16 * v.toNat + w.toNat) := by
  have h : ∀ m n : Fin 16, UInt8.ofNat m <<< 4 ||| UInt8.ofNat n = UInt8.ofNat (16 * m + n) := by
    decide +kernel
  have hpair := h ⟨v.toNat, hv⟩ ⟨w.toNat, hw⟩
  rwa [UInt8.ofNat_toNat, UInt8.ofNat_toNat] at hpair

end Tables

/-- The digits read behind `\u` and what the lexer keeps of them. -/
def Keeping (digits : List UInt8) (lex : Lexer) : Prop :=
  lex.offset = digits.length ∧
  match digits with
  | [] => True
  | [a] => ∃ v, hexDigit a = some v ∧ lex.unicodeCp.1 = v <<< 4
  | [a, b] => ∃ v w, hexDigit a = some v ∧ hexDigit b = some w ∧ lex.unicodeCp.1 = v <<< 4 ||| w
  | [a, b, c] => ∃ v w x, hexDigit a = some v ∧ hexDigit b = some w ∧ hexDigit c = some x ∧
      lex.unicodeCp = (v <<< 4 ||| w, x <<< 4)
  | _ => False

def Reads (content out : List UInt8) (lex : Lexer) : Prop :=
  match lex.state with
  | .inString => Decodes content out
  | .inStringEscape => ∃ text, content = text ++ ['\\'.toUInt8] ∧ Decodes text out
  | .inStringUnicodeEscape => ∃ text digits, content = text ++ '\\'.toUInt8 :: 'u'.toUInt8 :: digits ∧
      Decodes text out ∧ Keeping digits lex
  | _ => False

lemma Reads.inside {content out : List UInt8} {lex : Lexer} (h : Reads content out lex) :
    lex.inside = true := by
  rw [Reads] at h
  rw [Lexer.inside]
  cases hs : lex.state <;> simp_all

variable {cfg : Config} {lex : Lexer} {b : UInt8} {content out : List UInt8}

lemma reads_recordMagic (h : Reads content out lex) (b : UInt8) :
    Reads content out (recordMagic lex b) := by
  simpa only [Reads, Keeping, recordMagic_state, recordMagic_offset, recordMagic_unicodeCp] using h

/-- A byte of the string is delivered, or the string ends. -/
def Delivered (content out : List UInt8) (b : UInt8) : Reaction δ → Prop
  | .consume calls lex => (∃ p, calls = [.tokencEnd p] ∧ Decodes content out) ∨
      ∃ more : List UInt8, calls = more.map charCall ∧ Reads (content ++ [b]) (out ++ more) lex
  | .unread _ _ => False
  | .reject _ => True

lemma Delivered.ite {p : Prop} [Decidable p] {r s : Reaction δ} (hr : p → Delivered content out b r)
    (hs : ¬p → Delivered content out b s) : Delivered content out b (if p then r else s) := by
  by_cases h : p
  · rw [if_pos h]
    exact hr h
  · rw [if_neg h]
    exact hs h

lemma ofString_delivered (hs : lex.state = .inString) (h : Reads content out lex) (at_ : Pointer) :
    Delivered content out b (Reaction.ofString cfg lex at_ b : Reaction δ) := by
  simp only [Reads, hs] at h
  rw [Reaction.ofString]
  cases hc : checkUtf8 cfg lex b with
  | error code => trivial
  | ok a =>
    obtain ⟨lex', last⟩ := a
    have hs' : lex'.state = .inString := (checkUtf8_state hc).trans hs
    have hstay (hslash : b ≠ '\\'.toUInt8) (hquote : b ≠ '\"'.toUInt8) :
        Delivered content out b (.consume [charCall b] lex' : Reaction δ) := by
      refine .inr ⟨[b], rfl, ?_⟩
      simp only [Reads, hs']
      exact h.append (.byte hslash hquote .nil)
    cases last with
    | false =>
      obtain ⟨hslash, hquote⟩ := checkUtf8_false hc
      exact hstay hslash hquote
    | true =>
      apply Delivered.ite
      · rintro rfl
        refine .inr ⟨[], rfl, content, rfl, ?_⟩
        rwa [List.append_nil]
      intro hslash
      apply Delivered.ite
      · exact fun _ => .inl ⟨at_, rfl, h⟩
      intro hquote
      exact .ite (fun _ => trivial) fun _ => hstay hslash hquote

lemma ofEscape_delivered (hs : lex.state = .inStringEscape) (h : Reads content out lex) :
    Delivered content out b (Reaction.ofEscape lex b : Reaction δ) := by
  simp only [Reads, hs] at h
  obtain ⟨text, rfl, h⟩ := h
  rw [Reaction.ofEscape]
  cases hb : escapeByte b with
  | some e =>
    refine .inr ⟨[e], rfl, ?_⟩
    have hdecodes := h.append (.escape ((escape_tables b).1 e hb) .nil)
    simpa [Reads] using hdecodes
  | none =>
    apply Delivered.ite
    · rintro rfl
      refine .inr ⟨[], rfl, text, [], by simp, ?_, rfl, trivial⟩
      rwa [List.append_nil]
    · exact fun _ => trivial

lemma ofUnicodeEscape_delivered (hs : lex.state = .inStringUnicodeEscape) (h : Reads content out lex) :
    Delivered content out b (Reaction.ofUnicodeEscape lex b : Reaction δ) := by
  simp only [Reads, hs] at h
  obtain ⟨text, digits, rfl, h, hoffset, hdigits⟩ := h
  rw [Reaction.ofUnicodeEscape]
  cases hb : hexDigit b with
  | none => trivial
  | some value =>
    -- The digits read so far, of which there are at most three.
    have hmore (hlast : lex.offset ≠ 3) (hkeeping : Keeping (digits ++ [b]) (pushHexDigit lex value)) :
        Delivered (text ++ '\\'.toUInt8 :: 'u'.toUInt8 :: digits) out b
          (.consume [] (pushHexDigit lex value) : Reaction δ) := by
      refine .inr ⟨[], rfl, ?_⟩
      simp only [Reads, pushHexDigit, if_neg hlast, hs]
      exact ⟨text, digits ++ [b], by simp, by simpa using h, hkeeping⟩
    rcases digits with _ | ⟨a, _ | ⟨a', _ | ⟨a'', _ | ⟨_, _⟩⟩⟩⟩
    · have hlast : lex.offset ≠ 3 := by simp [hoffset]
      dsimp only
      rw [if_neg hlast]
      exact hmore hlast ⟨by simp [pushHexDigit, hoffset], value, hb, by simp [pushHexDigit, hoffset]⟩
    · have hlast : lex.offset ≠ 3 := by simp [hoffset]
      obtain ⟨v, hv, hcp⟩ := hdigits
      dsimp only
      rw [if_neg hlast]
      exact hmore hlast ⟨by simp [pushHexDigit, hoffset], v, value, hv, hb,
        by simp [pushHexDigit, hoffset, hcp]⟩
    · have hlast : lex.offset ≠ 3 := by simp [hoffset]
      obtain ⟨v, w, hv, hw, hcp⟩ := hdigits
      dsimp only
      rw [if_neg hlast]
      exact hmore hlast ⟨by simp [pushHexDigit, hoffset], v, w, value, hv, hw, hb,
        by simp [pushHexDigit, hoffset, hcp]⟩
    · obtain ⟨v, w, x, hv, hw, hx, hcp⟩ := hdigits
      have hlast : lex.offset = 3 := hoffset
      dsimp only
      rw [if_pos hlast]
      obtain ⟨⟨ha, hv⟩, ⟨ha', hw⟩⟩ := And.intro ((escape_tables _).2 v hv) ((escape_tables _).2 w hw)
      obtain ⟨ha'', hx⟩ := (escape_tables _).2 x hx
      obtain ⟨hb, hvalue⟩ := (escape_tables _).2 value hb
      have hdecodes := h.append (.unicode ha ha' ha'' hb .nil)
      rw [← pair_eq hv hw, ← pair_eq hx hvalue] at hdecodes
      refine .inr ⟨[v <<< 4 ||| w, x <<< 4 ||| value], ?_, ?_⟩
      · simp [pushHexDigit, hlast, hcp]
      · simpa [Reads, pushHexDigit, hlast] using hdecodes
    · exact hdigits.elim

variable [DoubleArith δ] {s t : Scan}

variable (cfg) in
lemma react_delivered (h : Reads content out lex) (index : ℤ) (b : UInt8) :
    Delivered content out b (react cfg lex index b : Reaction δ) := by
  have hin := h.inside
  rw [react]
  cases hs : lex.state with
  | inString => exact ofString_delivered hs h _
  | inStringEscape => exact ofEscape_delivered hs h
  | inStringUnicodeEscape => exact ofUnicodeEscape_delivered hs h
  | _ => simp [Lexer.inside, hs] at hin

lemma scanStep_delivered {calls : List (LexerCall δ)} (h : Reads content out s.lex)
    (hstep : scanStep cfg s b = (calls, .ok t)) :
    (∃ p, calls = [.tokencEnd p] ∧ Decodes content out) ∨
      ∃ more : List UInt8, calls = more.map charCall ∧ Reads (content ++ [b]) (out ++ more) t.lex := by
  have hr := react_delivered (δ := δ) cfg (reads_recordMagic h b) s.index b
  rw [scanStep] at hstep
  cases hreact : (react cfg (recordMagic s.lex b) s.index b : Reaction δ) with
  | consume calls' lex =>
    rw [hreact] at hr hstep
    cases hstep
    exact hr
  | unread calls' lex =>
    rw [hreact] at hr
    exact hr.elim
  | reject code => simp [hreact] at hstep

lemma scanner_run_delivered {body : List UInt8} {calls : List (LexerCall δ)}
    (hs : s.lex.state = .inString) (hrun : (scanner cfg).run s body = (calls, .ok t))
    (hcalls : ∀ p, .tokencEnd p ∉ calls) :
    ∃ out : List UInt8, calls = out.map charCall ∧ Reads body out t.lex := by
  refine (scanner cfg).run_invariant (P := fun body (calls : List (LexerCall δ)) t =>
      (∀ p, .tokencEnd p ∉ calls) → ∃ out : List UInt8, calls = out.map charCall ∧ Reads body out t.lex)
    (fun _ => ⟨[], rfl, ?_⟩) (fun body calls u b calls' t hu hstep hall => ?_) hrun hcalls
  · rw [Reads, hs]
    exact .nil
  · obtain ⟨out, rfl, hreads⟩ := hu fun p hp => hall p (List.mem_append_left _ hp)
    rcases scanStep_delivered hreads hstep with ⟨p, rfl, -⟩ | ⟨more, rfl, hmore⟩
    · exact absurd (List.mem_append_right _ (List.mem_singleton.mpr rfl)) (hall p)
    · exact ⟨out ++ more, by rw [List.map_append], hmore⟩

variable (cfg) in
theorem string_decoded {lexer : Lexer} {chunks : List (List UInt8)}
    {before mid after : List (LexerCall δ)} {p q : Pointer}
    (h : trace cfg lexer 0 chunks = before ++ .tokencBegin p :: mid ++ .tokencEnd q :: after)
    (hmid : ∀ r, .tokencEnd r ∉ mid) :
    ∃ start content rest out : List UInt8,
      chunks.flatten = start ++ '\"'.toUInt8 :: content ++ '\"'.toUInt8 :: rest ∧
        p = .buffer start.length ∧ q = .buffer (start.length + 1 + content.length) ∧
        Decodes content out ∧ mid = out.map charCall := by
  obtain ⟨after', hrun⟩ := trace_call rfl h
  rw [List.append_assoc, List.cons_append] at hrun
  obtain ⟨start, bytes, calls, u, t, hflat, hstart, rfl, -, -, -, hs, hindex, hafter⟩ :=
    scanner_begins hrun
  have hin : t.lex.inside = true := by simp [Lexer.inside, hs]
  obtain ⟨content, rest, v, w, rfl, hbody, hquote, rfl, -⟩ := scanner_ends hin hafter.symm hmid
  obtain ⟨out, rfl, hreads⟩ := scanner_run_delivered hs hbody hmid
  have hu : u.index = start.length := by simpa using scanner_run_index hstart
  refine ⟨start, content, rest, out, by simpa using hflat, by rw [hu], ?_, ?_, rfl⟩
  · rw [scanner_run_index hbody, hindex, hu]
  · rcases scanStep_delivered hreads hquote with ⟨-, -, hdecodes⟩ | ⟨more, hmore, -⟩
    · exact hdecodes
    · cases more <;> simp [charCall] at hmore

/-- The literal `"a\u00e9\n"` in four pushes, behind a comma. -/
theorem string_decoded_escapes :
    ∃ start content rest out : List UInt8,
      [[0x2c, 0x22, 0x61, 0x5c], [0x75, 0x30, 0x30], [0x65, 0x39, 0x5c], [0x6e, 0x22]].flatten =
          start ++ '\"'.toUInt8 :: content ++ '\"'.toUInt8 :: rest ∧
        Pointer.buffer 1 = .buffer start.length ∧
        Pointer.buffer 11 = .buffer (start.length + 1 + content.length) ∧
        Decodes content out ∧
          ([0x61, 0x00, 0xe9, 0x0a].map charCall : List (LexerCall ℚ)) = out.map charCall :=
  have htrace : trace .default .zero 0
      [[0x2c, 0x22, 0x61, 0x5c], [0x75, 0x30, 0x30], [0x65, 0x39, 0x5c], [0x6e, 0x22]] =
        [.token .comma (.buffer 0)] ++ .tokencBegin (.buffer 1) ::
          ([0x61, 0x00, 0xe9, 0x0a].map charCall : List (LexerCall ℚ)) ++
            .tokencEnd (.buffer 11) :: [] := by
    decide
  string_decoded .default htrace (by simp [charCall])

end Embedjson
