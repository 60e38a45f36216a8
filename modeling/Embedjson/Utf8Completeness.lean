import Embedjson.Grammar.Json
import Embedjson.Lexer.Chunking
import Embedjson.Lexer.Strings

namespace Embedjson

open Foundations Foundations.Program Foundations.Utf8

variable {δ : Type}

inductive Item where
  | char (c : Char) (h : 0x20 ≤ c.val.toNat ∧ c ≠ '\"' ∧ c ≠ '\\')
  | escape (letter : Char) (h : letter ∈ ['\"', '\\', '/', 'b', 'f', 'n', 'r', 't'])
  | unicode (a b c d : Char) (h : ∀ x ∈ [a, b, c, d], x ∈ "0123456789abcdefABCDEF".toList)

def Item.bytes : Item → List UInt8
  | char c _ => String.utf8EncodeChar c
  | escape letter _ => ['\\'.toUInt8, letter.toUInt8]
  | unicode a b c d _ =>
    ['\\'.toUInt8, 'u'.toUInt8, a.toUInt8, b.toUInt8, c.toUInt8, d.toUInt8]

def literal (items : List Item) : List UInt8 :=
  '\"'.toUInt8 :: items.flatMap Item.bytes ++ ['\"'.toUInt8]

/-- The code points from U+20000 to U+2FFFF. -/
def PlaneTwo (c : Char) : Prop := 0x20000 ≤ c.val.toNat ∧ c.val.toNat ≤ 0x2ffff

variable [DoubleArith δ] {cfg : Config} {s : Scan} {nb cc nb' cc' : ℕ}

def Carries (δ : Type) [DoubleArith δ] (cfg : Config) (s : Scan) (bytes : List UInt8) (nb cc : ℕ) :
    Prop :=
  ∃ (text : List UInt8) (t : Scan),
    (scanner (δ := δ) cfg).run s bytes = (text.map charCall, .ok t) ∧ InText t.lex nb cc

namespace Carries

lemma nil (ht : InText s.lex nb cc) : Carries δ cfg s [] nb cc := ⟨[], s, rfl, ht⟩

lemma cons {b : UInt8} {bytes : List UInt8} (text : List UInt8) {t : Scan}
    (hb : scanStep (δ := δ) cfg s b = (text.map charCall, .ok t))
    (h : Carries δ cfg t bytes nb cc) : Carries δ cfg s (b :: bytes) nb cc := by
  obtain ⟨text', u, hrun, hu⟩ := h
  exact ⟨text ++ text', u, by rw [Transducer.run_cons_ok (scanner cfg) hb, hrun, List.map_append], hu⟩

lemma append {xs ys : List UInt8} (h : Carries δ cfg s xs nb cc)
    (hy : ∀ t : Scan, InText t.lex nb cc → Carries δ cfg t ys nb' cc') :
    Carries δ cfg s (xs ++ ys) nb' cc' := by
  obtain ⟨text, t, hrun, ht⟩ := h
  obtain ⟨text', u, hrun', hu⟩ := hy t ht
  exact ⟨text ++ text', u, by rw [Transducer.run_append_ok _ hrun, hrun', List.map_append], hu⟩

end Carries

section Characters

variable (hv : cfg.validateUtf8 = true)

include hv

lemma carries_byte {b : UInt8} {bytes : List UInt8} {n c : ℕ} {last : Bool}
    (ht : InText s.lex nb cc) (h : validate nb cc b = some (n, c, last))
    (hb : last = true → b ≠ '\\'.toUInt8 ∧ b ≠ '\"'.toUInt8 ∧ (n = 0 → ¬b < 0x20))
    (hrest : ∀ t : Scan, InText t.lex n c → Carries δ cfg t bytes nb' cc') :
    Carries δ cfg s (b :: bytes) nb' cc' := by
  obtain ⟨lex, hstep, hlex⟩ := scan_byte (δ := δ) hv ht h hb
  exact .cons [b] hstep (hrest _ hlex)

lemma carries_tail {b : UInt8} (ht : InText s.lex 1 0) (hb : Tail b) :
    Carries δ cfg s [b] 0 0 := by
  obtain ⟨h₁, h₂, h₃⟩ := tail_plain hb
  exact carries_byte hv ht ((validate_one b).trans (if_pos hb)) (fun _ => ⟨h₁, h₂, fun _ => h₃⟩)
    fun t => .nil

lemma carries_tails {b c : UInt8} (ht : InText s.lex 2 0) (hb : Tail b) (hc : Tail c) :
    Carries δ cfg s [b, c] 0 0 := by
  obtain ⟨h₁, h₂, h₃⟩ := tail_plain hb
  exact carries_byte hv ht ((validate_two b).trans (if_pos hb)) (fun _ => ⟨h₁, h₂, fun _ => h₃⟩)
    fun t ht => carries_tail hv ht hc

lemma carries_encoded {bytes : List UInt8} (h : Encoded bytes)
    (hlead : ∀ a rest, bytes = a :: rest → 0xc2 ≤ a)
    (hplane : ¬∃ b rest, bytes = 0xf0 :: b :: rest ∧ 0xa0 ≤ b ∧ b ≤ 0xaf) (ht : InText s.lex 0 0) :
    Carries δ cfg s bytes 0 0 := by
  cases h with
  | @one a h => exact absurd (UInt8.le_trans (hlead a [] rfl) h) (by decide)
  | @two a b h₁ h₂ hb =>
    exact carries_byte hv ht (validate_lead_two h₁ h₂) nofun fun t ht => carries_tail hv ht hb
  | @three a b c h₁ h₂ hb hc =>
    refine carries_byte hv ht (validate_lead_three h₁ h₂) nofun fun t ht => ?_
    by_cases ha : a = 0xe0
    · rw [if_pos ha] at ht
      obtain ⟨hp₁, hp₂, hp₃⟩ := tail_plain hb.1
      exact carries_byte hv ht ((validate_e0 b).trans (if_pos ⟨hb.2.1 ha, hb.1.2⟩))
        (fun _ => ⟨hp₁, hp₂, fun _ => hp₃⟩) fun t ht => carries_tail hv ht hc
    · rw [if_neg ha] at ht
      exact carries_tails hv ht hb.1 hc
  | @four a b c d h₁ h₂ hb hc hd =>
    obtain ⟨hp₁, hp₂, hp₃⟩ := tail_plain hb.1
    have hsecond {nb cc : ℕ} (t : Scan) (ht : InText t.lex nb cc)
        (h : validate nb cc b = some (2, 0, true)) : Carries δ cfg t [b, c, d] 0 0 :=
      carries_byte hv ht h (fun _ => ⟨hp₁, hp₂, fun _ => hp₃⟩) fun t ht => carries_tails hv ht hc hd
    refine carries_byte hv ht (validate_lead_four h₁ h₂) nofun fun t ht => hsecond t ht ?_
    by_cases hf0 : a = 0xf0
    · rw [if_pos hf0, validate_f0]
      refine if_pos ?_
      have hnot : ¬(0xa0 ≤ b ∧ b ≤ 0xaf) := fun h => hplane ⟨b, [c, d], by rw [hf0], h⟩
      have hlow : 0x90 ≤ b := hb.2.2.2.1 hf0
      have hhigh : b ≤ 0xbf := hb.1.2
      rw [UInt8.le_iff_toNat_le] at hlow hhigh
      simp only [UInt8.le_iff_toNat_le] at hnot ⊢
      change ¬(0xa0 ≤ b.toNat ∧ b.toNat ≤ 0xaf) at hnot
      change 0x90 ≤ b.toNat at hlow
      change b.toNat ≤ 0xbf at hhigh
      change (0x90 ≤ b.toNat ∧ b.toNat ≤ 0x9f) ∨ (0xb0 ≤ b.toNat ∧ b.toNat ≤ 0xbf)
      omega
    · rw [if_neg hf0]
      by_cases hf4 : a = 0xf4
      · rw [if_pos hf4, validate_f4]
        exact if_pos ⟨hb.1.1, hb.2.2.2.2 hf4⟩
      · rw [if_neg hf4]
        exact validate_three hb.1

lemma carries_char {c : Char} (hc : 0x20 ≤ c.val.toNat ∧ c ≠ '\"' ∧ c ≠ '\\') (hplane : ¬PlaneTwo c)
    (ht : InText s.lex 0 0) : Carries δ cfg s (String.utf8EncodeChar c) 0 0 := by
  by_cases hascii : c.val.toNat ≤ 0x7f
  · have hbyte (n : ℕ) : (UInt8.ofNat n).toNat = n % 2 ^ 8 := UInt8.toNat_ofNat'
    have hne (d : Char) (hd : d.val.toNat ≤ 0x7f) (h : c ≠ d) :
        UInt8.ofNat c.val.toNat ≠ d.toUInt8 := by
      intro heq
      have hnat := congrArg UInt8.toNat heq
      rw [hbyte, show d.toUInt8.toNat = d.val.toNat % 2 ^ 8 from rfl] at hnat
      exact h (Char.ext (UInt32.toNat_inj.mp (by omega)))
    rw [utf8EncodeChar_ascii hascii]
    refine carries_byte hv ht (validate_ascii ?_) (fun _ => ⟨hne _ (by decide) hc.2.2,
      hne _ (by decide) hc.2.1, fun _ => ?_⟩) fun t => .nil
    · rw [UInt8.le_iff_toNat_le, hbyte]
      change _ ≤ 0x7f
      omega
    · rw [UInt8.lt_iff_toNat_lt, hbyte]
      change ¬_ < 0x20
      omega
  · exact carries_encoded hv (encoded_utf8EncodeChar c) (fun a rest => utf8EncodeChar_head hascii)
      (mt (utf8EncodeChar_planeTwo c).mp hplane) ht

/-- The mask of the source refuses the second byte of plane two. -/
lemma scan_second_planeTwo {b : UInt8} (hb₁ : 0xa0 ≤ b) (hb₂ : b ≤ 0xaf) (rest : List UInt8)
    (ht : InText s.lex 0 0) :
    ∃ os code, (scanner (δ := δ) cfg).run s (0xf0 :: b :: rest) = (os, .error code) := by
  obtain ⟨lex, hstep, hlex⟩ := scan_byte (δ := δ) hv ht (validate_lead_four (b := 0xf0)
    (by decide) (by decide)) nofun
  have hnone : validate 3 2 b = none := by
    rw [validate_f0]
    refine if_neg ?_
    rintro (⟨-, h⟩ | ⟨h, -⟩)
    · exact absurd (UInt8.le_trans hb₁ h) (by decide)
    · exact absurd (UInt8.le_trans h hb₂) (by decide)
  obtain ⟨code, hbad⟩ := scan_refused (δ := δ) (s := ⟨lex, s.index + 1⟩) hv hlex hnone
  rw [Transducer.run_cons_ok (scanner cfg) hstep, Transducer.run_cons_error (scanner cfg) hbad]
  exact ⟨_, code, rfl⟩

lemma scan_planeTwo {c : Char} (hplane : PlaneTwo c) (ht : InText s.lex 0 0) :
    ∃ os code, (scanner (δ := δ) cfg).run s (String.utf8EncodeChar c) = (os, .error code) := by
  obtain ⟨b, rest, heq, hb₁, hb₂⟩ := (utf8EncodeChar_planeTwo c).mpr hplane
  rw [heq]
  exact scan_second_planeTwo hv hb₁ hb₂ rest ht

/-- A character that has begun can be completed, if not by its own bytes then by those of another
one. -/
lemma exists_character {part more : List UInt8} {calls : List (LexerCall δ)} {t : Scan}
    (h : Encoded (part ++ more)) (hpart : part ≠ []) (hmore : more ≠ []) (ht : InText s.lex 0 0)
    (hrun : (scanner cfg).run s part = (calls, .ok t)) :
    ∃ fin, Encoded (part ++ fin) ∧ Carries δ cfg s (part ++ fin) 0 0 := by
  obtain ⟨a, part, rfl⟩ := List.exists_cons_of_ne_nil hpart
  have hlead : 0xc2 ≤ a :=
    (h.first.resolve_left (h.not_ascii hpart hmore List.mem_cons_self)).1
  by_cases hplane : ∃ b rest, a :: part ++ more = 0xf0 :: b :: rest ∧ 0xa0 ≤ b ∧ b ≤ 0xaf
  · obtain ⟨b, rest, heq, hb₁, hb₂⟩ := hplane
    obtain ⟨rfl, htail⟩ := List.cons.inj heq
    cases part with
    | nil =>
      have hfirst : Encoded [0xf0, 0x90, 0x80, 0x80] :=
        encoded_iff.mpr ⟨Char.ofNat 0x10000, by decide⟩
      exact ⟨[0x90, 0x80, 0x80], hfirst, carries_encoded hv hfirst (by simp) (by simp) ht⟩
    | cons b' part =>
      obtain ⟨rfl, -⟩ := List.cons.inj htail
      obtain ⟨os, code, herror⟩ := scan_second_planeTwo (δ := δ) hv hb₁ hb₂ part ht
      cases hrun.symm.trans herror
  · refine ⟨more, h, carries_encoded hv h ?_ hplane ht⟩
    rintro _ _ ⟨⟩
    exact hlead

end Characters

section Literals

variable (hv : cfg.validateUtf8 = true)

include hv

omit hv in
lemma escapeByte_letter {letter : Char} (h : letter ∈ ['\"', '\\', '/', 'b', 'f', 'n', 'r', 't']) :
    ∃ e, escapeByte letter.toUInt8 = some e := by
  have hall : ['\"', '\\', '/', 'b', 'f', 'n', 'r', 't'].all
      fun letter => (escapeByte letter.toUInt8).isSome := by decide
  exact Option.isSome_iff_exists.mp (List.all_eq_true.mp hall letter h)

omit hv in
lemma hexDigit_digit {digit : Char} (h : digit ∈ "0123456789abcdefABCDEF".toList) :
    ∃ value, hexDigit digit.toUInt8 = some value := by
  have hall : "0123456789abcdefABCDEF".toList.all fun digit => (hexDigit digit.toUInt8).isSome := by
    decide
  exact Option.isSome_iff_exists.mp (List.all_eq_true.mp hall digit h)

lemma carries_escape {letter : Char} (h : letter ∈ ['\"', '\\', '/', 'b', 'f', 'n', 'r', 't'])
    (ht : InText s.lex 0 0) : Carries δ cfg s ['\\'.toUInt8, letter.toUInt8] 0 0 := by
  obtain ⟨lex, hstep, hs, hnb, hcc⟩ := scan_backslash (δ := δ) hv ht (validate_ascii (by decide))
  obtain ⟨e, he⟩ := escapeByte_letter h
  obtain ⟨lex', hstep', ht'⟩ := scan_simpleEscape (δ := δ) cfg (s := ⟨lex, s.index + 1⟩) hs he
  rw [hnb, hcc] at ht'
  exact .cons [] hstep (.cons [e] hstep' (.nil ht'))

lemma carries_unicode {a b c d : Char}
    (h : ∀ x ∈ [a, b, c, d], x ∈ "0123456789abcdefABCDEF".toList) (ht : InText s.lex 0 0) :
    Carries δ cfg s
      ['\\'.toUInt8, 'u'.toUInt8, a.toUInt8, b.toUInt8, c.toUInt8, d.toUInt8] 0 0 := by
  simp only [List.forall_mem_cons] at h
  obtain ⟨ha, hb, hc, hd, -⟩ := h
  obtain ⟨va, ha⟩ := hexDigit_digit ha
  obtain ⟨vb, hb⟩ := hexDigit_digit hb
  obtain ⟨vc, hc⟩ := hexDigit_digit hc
  obtain ⟨vd, hd⟩ := hexDigit_digit hd
  obtain ⟨lex₀, hstep₀, hs, hnb, hcc⟩ := scan_backslash (δ := δ) hv ht (validate_ascii (by decide))
  obtain ⟨lex₁, hstep₁, h₁⟩ := scan_unicodeEscape (δ := δ) cfg (s := ⟨lex₀, s.index + 1⟩) hs
  obtain ⟨lex₂, hstep₂, h₂⟩ := scan_digit (δ := δ) cfg
    (s := ⟨lex₁, s.index + 1 + 1⟩) h₁ (by decide) ha
  obtain ⟨lex₃, hstep₃, h₃⟩ := scan_digit (δ := δ) cfg
    (s := ⟨lex₂, s.index + 1 + 1 + 1⟩) h₂ (by decide) hb
  obtain ⟨lex₄, hstep₄, h₄⟩ := scan_digit (δ := δ) cfg
    (s := ⟨lex₃, s.index + 1 + 1 + 1 + 1⟩) h₃ (by decide) hc
  obtain ⟨lex₅, x, y, hstep₅, h₅⟩ := scan_lastDigit (δ := δ) cfg
    (s := ⟨lex₄, s.index + 1 + 1 + 1 + 1 + 1⟩) h₄ hd
  rw [hnb, hcc] at h₅
  exact .cons [] hstep₀ (.cons [] hstep₁ (.cons [] hstep₂ (.cons [] hstep₃ (.cons [] hstep₄
    (.cons [x, y] hstep₅ (.nil h₅))))))

lemma carries_item {item : Item} (hplane : ∀ c h, item = .char c h → ¬PlaneTwo c)
    (ht : InText s.lex 0 0) : Carries δ cfg s item.bytes 0 0 := by
  cases item with
  | char c h => exact carries_char hv h (hplane c h rfl) ht
  | escape letter h => exact carries_escape hv h ht
  | unicode a b c d h => exact carries_unicode hv h ht

lemma scan_items (items : List Item) (ht : InText s.lex 0 0) :
    ((∀ c h, .char c h ∈ items → ¬PlaneTwo c) → Carries δ cfg s (items.flatMap Item.bytes) 0 0) ∧
      ((∃ c h, .char c h ∈ items ∧ PlaneTwo c) →
        ∃ os code, (scanner (δ := δ) cfg).run s (items.flatMap Item.bytes) = (os, .error code)) := by
  induction items generalizing s with
  | nil => exact ⟨fun _ => .nil ht, by simp⟩
  | cons item items ih =>
    by_cases hitem : ∀ c h, item = .char c h → ¬PlaneTwo c
    · obtain ⟨text, t, hrun, ht'⟩ := carries_item (δ := δ) hv hitem ht
      obtain ⟨hgood, hbad⟩ := ih ht'
      rw [List.flatMap_cons, Transducer.run_append_ok _ hrun]
      constructor
      · intro h
        exact .append ⟨text, t, hrun, ht'⟩ fun u hu =>
          (ih hu).1 fun c hc hmem => h c hc (List.mem_cons_of_mem _ hmem)
      · rintro ⟨c, hc, hmem, hplane⟩
        rcases List.mem_cons.mp hmem with heq | hmem
        · exact absurd hplane (hitem c hc heq.symm)
        · obtain ⟨os, code, hos⟩ := hbad ⟨c, hc, hmem, hplane⟩
          exact ⟨text.map charCall ++ os, code, by rw [hos]⟩
    · push Not at hitem
      obtain ⟨c, hc, rfl, hplane⟩ := hitem
      constructor
      · intro h
        exact absurd hplane (h c hc (List.mem_cons_self))
      · rintro -
        obtain ⟨os, code, hos⟩ := scan_planeTwo (δ := δ) hv hplane ht
        exact ⟨os, code, Transducer.run_append_error _ hos _⟩

variable (cfg) in
lemma scan_literal (items : List Item) :
    ((∀ c h, .char c h ∈ items → ¬PlaneTwo c) → ∃ (text : List UInt8) (t : Scan) (p q : Pointer),
      (scanner (δ := δ) cfg).run ⟨.zero, 0⟩ (literal items) =
        (.tokencBegin p :: text.map charCall ++ [.tokencEnd q], .ok t)) ∧
      ((∃ c h, .char c h ∈ items ∧ PlaneTwo c) →
        ∃ os code, (scanner (δ := δ) cfg).run ⟨.zero, 0⟩ (literal items) = (os, .error code)) := by
  obtain ⟨lex, hstep, hlex⟩ : ∃ lex, scanStep (δ := δ) cfg ⟨.zero, 0⟩ '\"'.toUInt8 =
      ([.tokencBegin (.buffer 0)], .ok ⟨lex, 0 + 1⟩) ∧ InText lex 0 0 := by
    refine ⟨{ recordMagic .zero '\"'.toUInt8 with state := .inString }, scanStep_consume ?_,
      rfl, recordMagic_nb _ _, recordMagic_cc _ _⟩
    rw [react, recordMagic_state]
    rfl
  have hopen : (scanner (δ := δ) cfg).step ⟨.zero, 0⟩ '\"'.toUInt8 = _ := hstep
  obtain ⟨hgood, hbad⟩ := scan_items (δ := δ) (s := ⟨lex, 0 + 1⟩) hv items hlex
  rw [literal, List.cons_append, Transducer.run_cons_ok _ hopen]
  constructor
  · intro h
    obtain ⟨text, t, hrun, ht⟩ := hgood h
    obtain ⟨lex', hclose, -⟩ := scan_quote (δ := δ) hv ht (validate_ascii (by decide))
    refine ⟨text, ⟨lex', t.index + 1⟩, .buffer 0, .buffer t.index, ?_⟩
    rw [Transducer.run_append_ok _ hrun, Transducer.run_singleton,
      show (scanner cfg).step t _ = _ from hclose]
    rfl
  · intro h
    obtain ⟨os, code, hos⟩ := hbad h
    exact ⟨_, code, by rw [Transducer.run_append_error _ hos]⟩

end Literals

/-- A run that accepts one string token and nothing else. -/
def LexesString (x : List (LexerCall δ) × ℤ × Lexer) : Prop :=
  x.2.1 = 0 ∧ ∃ text : Text, x.1.map LexerCall.forget = (Lexeme.string text : Lexeme δ).calls

omit [DoubleArith δ] in
lemma pieces_ne_nil {f : LexerCall δ} (hf : f.Nonempty) : f.pieces ≠ [] := by
  cases f with
  | tokenc data bytes | tokenbn data bytes => simpa [LexerCall.pieces, LexerCall.Nonempty] using hf
  | _ => simp [LexerCall.pieces]

omit [DoubleArith δ] in
lemma chunks_of_pieces {l : List (LexerCall δ)} {text : List UInt8}
    (h : l.flatMap LexerCall.pieces = text.map charCall ++ [.tokencEnd .null])
    (hne : ∀ f ∈ l, f.Nonempty) :
    ∃ ts : Text, l.map LexerCall.forget = ts.map (.tokenc .null) ++ [.tokencEnd .null] := by
  induction l generalizing text with
  | nil => simp at h
  | cons f l ih =>
    obtain ⟨hf, hl⟩ := List.forall_mem_cons.mp hne
    rw [List.flatMap_cons] at h
    by_cases hchunk : ∃ data bytes, f = .tokenc data bytes
    · obtain ⟨data, bytes, rfl⟩ := hchunk
      obtain ⟨rest, hrest⟩ : ∃ rest : List UInt8,
          l.flatMap LexerCall.pieces = rest.map charCall ++ [.tokencEnd .null] := by
        rcases List.append_eq_append_iff.mp h with ⟨as, htext, hl⟩ | ⟨bs, hbytes, hend⟩
        · obtain ⟨xs, ys, -, -, rfl⟩ := List.map_eq_append_iff.mp htext
          exact ⟨ys, hl⟩
        · cases bs with
          | nil => exact ⟨[], by simpa using hend.symm⟩
          | cons g bs =>
            obtain rfl : .tokencEnd .null = g := (List.cons.inj hend).1
            have hmem : (.tokencEnd .null : LexerCall δ) ∈ bytes.map charCall := by
              rw [show bytes.map charCall = _ from hbytes]
              simp
            simp [charCall] at hmem
      obtain ⟨ts, hts⟩ := ih hrest hl
      exact ⟨bytes :: ts, by rw [List.map_cons, hts]; rfl⟩
    · have hpieces : f.pieces = [f.forget] ∨ ∃ b bs, f.pieces = bignumCall b :: bs := by
        cases f with
        | tokenc data bytes => exact absurd ⟨data, bytes, rfl⟩ hchunk
        | tokenbn data bytes =>
          obtain ⟨b, bytes, rfl⟩ := List.exists_cons_of_ne_nil hf
          exact .inr ⟨b, bytes.map bignumCall, rfl⟩
        | _ => exact .inl rfl
      rcases hpieces with hpieces | ⟨b, bs, hpieces⟩
      · rw [hpieces] at h
        cases text with
        | nil =>
          obtain ⟨hforget, hl'⟩ := List.cons.inj h
          obtain rfl : l = [] := by
            by_contra hne'
            obtain ⟨g, l, rfl⟩ := List.exists_cons_of_ne_nil hne'
            simp [pieces_ne_nil (hl g (by simp))] at hl'
          exact ⟨[], by rw [List.map_cons, hforget]; rfl⟩
        | cons b text =>
          have hforget := (List.cons.inj h).1
          cases f with
          | tokenc data bytes => exact absurd ⟨data, bytes, rfl⟩ hchunk
          | _ => cases hforget
      · rw [hpieces] at h
        cases text <;> cases (List.cons.inj h).1

omit [DoubleArith δ] in
lemma string_of_pieces {l : List (LexerCall δ)} (text : List UInt8)
    (h : l.flatMap LexerCall.pieces = .tokencBegin .null :: text.map charCall ++ [.tokencEnd .null])
    (hne : ∀ f ∈ l, f.Nonempty) :
    ∃ text : Text, l.map LexerCall.forget = (Lexeme.string text : Lexeme δ).calls := by
  cases l with
  | nil => simp at h
  | cons f l =>
    obtain ⟨hf, hl⟩ := List.forall_mem_cons.mp hne
    rw [List.flatMap_cons] at h
    have hfirst : f.pieces = [.tokencBegin .null] := by
      cases f with
      | tokenc data bytes | tokenbn data bytes =>
        obtain ⟨b, bytes, rfl⟩ := List.exists_cons_of_ne_nil hf
        cases (List.cons.inj h).1
      | _ => exact congrArg (fun g => [g]) (List.cons.inj h).1
    rw [hfirst] at h
    obtain ⟨ts, hts⟩ := chunks_of_pieces (List.cons.inj h).2 hl
    refine ⟨ts, ?_⟩
    have hforget : f.forget = .tokencBegin .null := by
      cases f with
      | tokenc data bytes | tokenbn data bytes =>
        obtain ⟨b, bytes, rfl⟩ := List.exists_cons_of_ne_nil hf
        cases (List.cons.inj hfirst).1
      | _ => exact (List.cons.inj hfirst).1
    rw [List.map_cons, hforget, hts]
    rfl

theorem literal_accepted_iff (hv : cfg.validateUtf8 = true)
    {answer : List (LexerCall δ) → LexerCall δ → ℤ} (hA : Accepting LexerCall.isError answer)
    {items : List Item} {chunks : List (List UInt8)} (hchunks : chunks.flatten = literal items) :
    LexesString (run answer (lexerPushAll cfg .zero chunks) []) ↔
      ∀ c h, .char c h ∈ items → ¬PlaneTwo c := by
  obtain ⟨hgood, hbad⟩ := scan_literal (δ := δ) cfg hv items
  have htells := lexerPushAll_tells (δ := δ) cfg .zero 0 chunks
  obtain ⟨h₁, h₂, h₃⟩ := (lexerPushAll_failsFast (δ := δ) cfg .zero chunks).run_accepting hA []
  rw [hchunks] at htells
  constructor
  · intro hlex c hc hmem hplane
    obtain ⟨os, code, hrun⟩ := hbad ⟨c, hc, hmem, hplane⟩
    rw [hrun] at htells
    exact h₃ htells.1 hlex.1
  · intro h
    obtain ⟨text, t, p, q, hrun⟩ := hgood h
    rw [hrun] at htells
    obtain ⟨hsome, hpieces, hne⟩ := htells
    rw [LexesString, h₁, h₂ _ hsome]
    refine ⟨rfl, string_of_pieces text (hpieces.trans ?_) hne⟩
    simp [LexerCall.forget, charCall]

def accentAndEscape : List Item := [.char 'é' (by decide), .escape 'n' (by decide)]

theorem literal_accepted_iff_accentAndEscape :
    LexesString (run (accept LexerCall.isError)
        (lexerPushAll (δ := ℚ) .default .zero [[34, 0xc3], [0xa9, 92], [], [110, 34]]) []) ↔
      ∀ c h, .char c h ∈ accentAndEscape → ¬PlaneTwo c :=
  literal_accepted_iff rfl (accepting_accept _) (by decide)

/-- The first character of plane two. -/
def firstOfPlaneTwo : Item := .char (Char.ofNat 0x20000) (by decide)

theorem plane_two_refused :
    ¬LexesString (run (accept LexerCall.isError)
      (lexerPushAll (δ := ℚ) .default .zero [literal [firstOfPlaneTwo]]) []) :=
  fun h => absurd h.1 (by decide)

end Embedjson
