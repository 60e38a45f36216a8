import Embedjson.NumberAcceptance
import Embedjson.StringDecoding
import Embedjson.Utf8Completeness

namespace Embedjson

open DoubleArith Foundations.Utf8

variable {δ : Type}

def whitespace : List UInt8 := " \n\r\t".toList.map Char.toUInt8

def keywords : List (List UInt8 × Tok) :=
  [("true".toList.map Char.toUInt8, .true), ("false".toList.map Char.toUInt8, .false),
    ("null".toList.map Char.toUInt8, .null)]

/-- The content of a string literal and the bytes that it stands for. With validation it is made of
characters and escapes, and no character is one of plane two. -/
structure Content (cfg : Config) (content out : List UInt8) : Prop where
  decodes : Decodes content out
  items : cfg.validateUtf8 = true → ∃ items : List Item, content = items.flatMap Item.bytes ∧
    ∀ c h, .char c h ∈ items → ¬PlaneTwo c

/-- The tokens that end with their last byte. -/
inductive Spells (cfg : Config) : List UInt8 → Lexeme δ → Prop
  | symbol {b : UInt8} {tok : Tok} (h : structural b = some tok) : Spells cfg [b] (.tok tok)
  | keyword {text : List UInt8} {tok : Tok} (h : (text, tok) ∈ keywords) :
      Spells cfg text (.tok tok)
  | string {content out : List UInt8} (h : Content cfg content out) :
      Spells cfg ('\"'.toUInt8 :: content ++ ['\"'.toUInt8]) (.string (out.map fun b => [b]))

section Strings

variable {content out out' : List UInt8}

lemma escapeByte_of_mem {letter e : UInt8} (h : (letter, e) ∈ simpleEscapes) :
    escapeByte letter = some e := by
  have hall : (simpleEscapes.all fun p => escapeByte p.1 = some p.2) = true := by decide
  exact of_decide_eq_true (List.all_eq_true.mp hall _ h)

lemma hexDigit_of_mem {d : UInt8} {v : ℕ} (h : (d, v) ∈ hexDigits) :
    ∃ w, hexDigit d = some w ∧ w.toNat = v := by
  have hall : (hexDigits.all fun p => (hexDigit p.1).map UInt8.toNat = some p.2) = true := by decide
  exact Option.map_eq_some_iff.mp (of_decide_eq_true (List.all_eq_true.mp hall _ h))

lemma hexDigits_unique {d : UInt8} {v w : ℕ} (h : (d, v) ∈ hexDigits) (h' : (d, w) ∈ hexDigits) :
    v = w := by
  obtain ⟨x, hx, rfl⟩ := hexDigit_of_mem h
  obtain ⟨y, hy, rfl⟩ := hexDigit_of_mem h'
  rw [Option.some.inj (hx.symm.trans hy)]

lemma not_mem_simpleEscapes {e : UInt8} : ('u'.toUInt8, e) ∉ simpleEscapes := by
  intro h
  have hu := escapeByte_of_mem h
  cases hu

lemma Decodes.unique (h : Decodes content out) (h' : Decodes content out') : out = out' := by
  induction h generalizing out' with
  | nil =>
    cases h'
    rfl
  | byte hslash hquote h ih =>
    cases h' with
    | byte _ _ h' => rw [ih h']
    | escape _ _ => exact absurd rfl hslash
    | unicode _ _ _ _ _ => exact absurd rfl hslash
  | escape he h ih =>
    cases h' with
    | byte hslash _ _ => exact absurd rfl hslash
    | escape he' h' =>
      rw [ih h', Option.some.inj ((escapeByte_of_mem he).symm.trans (escapeByte_of_mem he'))]
    | unicode _ _ _ _ _ => exact absurd he not_mem_simpleEscapes
  | unicode ha hb hc hd h ih =>
    cases h' with
    | byte hslash _ _ => exact absurd rfl hslash
    | escape he' _ => exact absurd he' not_mem_simpleEscapes
    | unicode ha' hb' hc' hd' h' =>
      rw [ih h', hexDigits_unique ha ha', hexDigits_unique hb hb', hexDigits_unique hc hc',
        hexDigits_unique hd hd']

lemma first_ascii {cs : List Char} {b : UInt8} {rest : List UInt8}
    (h : cs.flatMap String.utf8EncodeChar = b :: rest) (hb : b ≤ 0x7f) :
    ∃ c ds, cs = c :: ds ∧ c.val.toNat = b.toNat ∧ ds.flatMap String.utf8EncodeChar = rest := by
  cases cs with
  | nil => cases h
  | cons c ds =>
    rw [List.flatMap_cons] at h
    have hc := encoded_utf8EncodeChar c
    obtain ⟨a, l, hcl⟩ := List.exists_cons_of_ne_nil hc.ne_nil
    rw [hcl] at h hc
    obtain ⟨rfl, hrest⟩ := List.cons.inj h
    have hl := (List.cons.inj (hc.eq_singleton List.mem_cons_self hb)).2
    refine ⟨c, ds, rfl, ?_, by simpa [hl] using hrest⟩
    by_contra hne
    have hsmall : c.val.toNat ≤ 0x7f := by
      by_contra hlarge
      have hlead : 0xc2 ≤ a.toNat := utf8EncodeChar_head hlarge hcl
      have ha : a.toNat ≤ 0x7f := hb
      omega
    rw [utf8EncodeChar_ascii hsmall] at hcl
    have hbyte := congrArg UInt8.toNat (List.cons.inj hcl).1
    rw [UInt8.toNat_ofNat'] at hbyte
    omega

lemma Decodes.of_append {xs : List UInt8} (h : Decodes (xs ++ content) out)
    (hxs : '\\'.toUInt8 ∉ xs) : ∃ out', Decodes content out' := by
  induction xs generalizing out with
  | nil => exact ⟨out, h⟩
  | cons x xs ih =>
    rw [List.mem_cons, not_or] at hxs
    generalize hl : x :: xs ++ content = l at h
    cases h with
    | nil => cases hl
    | byte _ _ h => exact ih ((List.cons.inj hl).2 ▸ h) hxs.2
    | escape _ _ => exact absurd (List.cons.inj hl).1.symm hxs.1
    | unicode _ _ _ _ _ => exact absurd (List.cons.inj hl).1.symm hxs.1

lemma escape_letters {letter e : UInt8} (h : (letter, e) ∈ simpleEscapes) : letter ≤ 0x7f ∧
    ∃ c ∈ ['\"', '\\', '/', 'b', 'f', 'n', 'r', 't'], c.toUInt8 = letter := by
  have hall : (simpleEscapes.all fun p => p.1 ≤ 0x7f &&
      ['\"', '\\', '/', 'b', 'f', 'n', 'r', 't'].any fun c => c.toUInt8 = p.1) = true := by decide
  simpa using List.all_eq_true.mp hall _ h

lemma escape_digits {d : UInt8} {v : ℕ} (h : (d, v) ∈ hexDigits) : d ≤ 0x7f ∧
    ∃ c ∈ "0123456789abcdefABCDEF".toList, c.toUInt8 = d := by
  have hall : (hexDigits.all fun p => p.1 ≤ 0x7f &&
      "0123456789abcdefABCDEF".toList.any fun c => c.toUInt8 = p.1) = true := by decide
  have hmem := List.all_eq_true.mp hall _ h
  rw [Bool.and_eq_true, List.any_eq_true] at hmem
  simpa only [decide_eq_true_eq] using hmem

lemma exists_items (n : ℕ) {cs : List Char} (hn : cs.length ≤ n)
    (h : Decodes (cs.flatMap String.utf8EncodeChar) out)
    (hcontrol : ∀ b ∈ cs.flatMap String.utf8EncodeChar, 0x20 ≤ b) :
    ∃ items : List Item, cs.flatMap String.utf8EncodeChar = items.flatMap Item.bytes := by
  induction n generalizing cs out with
  | zero =>
    rw [List.eq_nil_of_length_eq_zero (Nat.le_zero.mp hn)]
    exact ⟨[], rfl⟩
  | succ n ih =>
    have hnext {ds : List Char} {out : List UInt8} (item : Item)
        (heq : cs.flatMap String.utf8EncodeChar = item.bytes ++ ds.flatMap String.utf8EncodeChar)
        (hlen : ds.length < cs.length)
        (hd : Decodes (ds.flatMap String.utf8EncodeChar) out) :
        ∃ items : List Item, cs.flatMap String.utf8EncodeChar = items.flatMap Item.bytes := by
      obtain ⟨items, hitems⟩ := ih (by omega) hd fun b hb =>
        hcontrol b (heq ▸ List.mem_append_right _ hb)
      exact ⟨item :: items, by rw [heq, hitems, List.flatMap_cons]⟩
    obtain ⟨l, hl⟩ : ∃ l, cs.flatMap String.utf8EncodeChar = l := ⟨_, rfl⟩
    rw [hl] at h
    cases h with
    | nil => exact ⟨[], hl⟩
    | @byte b rest out hslash hquote hrest =>
      obtain ⟨c, ds, rfl⟩ := List.exists_cons_of_ne_nil (l := cs) (by rintro rfl; cases hl)
      obtain ⟨a, bs, hc⟩ := List.exists_cons_of_ne_nil (encoded_utf8EncodeChar c).ne_nil
      rw [List.flatMap_cons, hc] at hl
      obtain ⟨rfl, rfl⟩ := List.cons.inj hl
      have hbs : '\\'.toUInt8 ∉ bs := by
        intro hmem
        have hone := (encoded_utf8EncodeChar c).eq_singleton
          (hc ▸ List.mem_cons_of_mem _ hmem) (by decide)
        rw [hc] at hone
        exact hslash (List.cons.inj hone).1
      have hplain : 0x20 ≤ c.val.toNat ∧ c ≠ '\"' ∧ c ≠ '\\' := by
        refine ⟨?_, ?_, ?_⟩
        · by_contra hsmall
          have hc' := utf8EncodeChar_ascii (c := c) (by omega)
          rw [hc] at hc'
          have ha : 0x20 ≤ a.toNat := hcontrol a (by rw [List.flatMap_cons, hc]; simp)
          rw [(List.cons.inj hc').1, UInt8.toNat_ofNat'] at ha
          omega
        · rintro rfl
          exact hquote (List.cons.inj hc).1.symm
        · rintro rfl
          exact hslash (List.cons.inj hc).1.symm
      obtain ⟨out', hd⟩ := hrest.of_append hbs
      exact hnext (.char c hplain) (List.flatMap_cons) (by simp) hd
    | escape he hrest =>
      obtain ⟨hascii, c, hc, hletter⟩ := escape_letters he
      obtain ⟨_, cs₁, rfl, -, hl₁⟩ := first_ascii hl (by decide)
      obtain ⟨_, cs₂, rfl, -, rfl⟩ := first_ascii hl₁ hascii
      refine hnext (.escape c hc) ?_ (by simp) hrest
      rw [hl, Item.bytes, hletter]
      rfl
    | unicode ha hb hc hd hrest =>
      obtain ⟨ha₇, a, hma, rfl⟩ := escape_digits ha
      obtain ⟨hb₇, b, hmb, rfl⟩ := escape_digits hb
      obtain ⟨hc₇, c, hmc, rfl⟩ := escape_digits hc
      obtain ⟨hd₇, d, hmd, rfl⟩ := escape_digits hd
      obtain ⟨_, cs₁, rfl, -, hl₁⟩ := first_ascii hl (by decide)
      obtain ⟨_, cs₂, rfl, -, hl₂⟩ := first_ascii hl₁ (by decide)
      obtain ⟨_, cs₃, rfl, -, hl₃⟩ := first_ascii hl₂ ha₇
      obtain ⟨_, cs₄, rfl, -, hl₄⟩ := first_ascii hl₃ hb₇
      obtain ⟨_, cs₅, rfl, -, hl₅⟩ := first_ascii hl₄ hc₇
      obtain ⟨_, cs₆, rfl, -, rfl⟩ := first_ascii hl₅ hd₇
      refine hnext (.unicode a b c d ?_) hl (by simp; omega) hrest
      simp only [List.forall_mem_cons]
      exact ⟨hma, hmb, hmc, hmd, List.forall_mem_nil _⟩

end Strings

namespace Numeral

/-- The integer fits the guard of the lexer, the fraction its 16 bits and the exponent its limit. -/
structure Readable (cfg : Config) (n : Numeral) : Prop where
  fits : FitsInt cfg n.int
  bounded : n.Bounded

/-- The byte belongs to the number if it follows its text. -/
def Continues (n : Numeral) (b : UInt8) : Prop :=
  isDigit b = true ∨ n.exp = none ∧
    ((b = 'e'.toUInt8 ∨ b = 'E'.toUInt8) ∨ n.frac = none ∧ b = '.'.toUInt8)

end Numeral

variable [DoubleArith δ]

/-- The value that lexer.c computes from the digits of a number. Those of the fraction are cut to the
widths of `frac_value` and `frac_power`. -/
def doubleOf (minus : Bool) (ds fs : List UInt8) (exp : Option (Bool × List UInt8)) : δ :=
  let mantissa := add (ofInt (decimal ds))
    (mul (ofInt (decimal fs % 2 ^ 64)) (powm10 (fs.length % 2 ^ 16 : ℕ)))
  negateIf minus (exp.elim mantissa fun e =>
    mul mantissa (powm10 (if e.1 then decimal e.2 else 0 - decimal e.2)))

def Numeral.double (n : Numeral) : δ :=
  doubleOf n.minus n.int (n.frac.getD []) (n.exp.map fun e => (e.negative, e.digits))

def Numeral.lexeme (n : Numeral) : Lexeme δ :=
  if n.frac.isNone && n.exp.isNone then .int (signed n.minus (decimal n.int)) else .double n.double

/-- The numbers that `embedjson_lexer_finalize` reads although they lack the digits of their fraction
or exponent. A fraction of 65536 digits is one of them, since `frac_power` is zero behind it. -/
inductive Stub (cfg : Config) : List UInt8 → δ → Prop
  | frac {minus : Bool} {ds fs : List UInt8} (hint : IsInt ds) (hfits : FitsInt cfg ds)
      (hfs : Digits fs) (hlen : fs.length % 2 ^ 16 = 0) :
      Stub cfg (minusText minus ++ ds ++ '.'.toUInt8 :: fs) (doubleOf minus ds fs none)
  | exp (m : Mantissa) {letter sign : UInt8} (hfits : FitsInt cfg m.int)
      (hfrac : ∀ fs ∈ m.frac, fs.length % 2 ^ 16 ≠ 0)
      (hletter : letter = 'e'.toUInt8 ∨ letter = 'E'.toUInt8)
      (hsign : sign = '+'.toUInt8 ∨ sign = '-'.toUInt8) :
      Stub cfg (m.text ++ [letter, sign])
        (doubleOf m.minus m.int (m.frac.getD []) (some (sign = '-'.toUInt8, [])))

/-- The whole input spells the tokens. A number ends where no byte of it follows. -/
inductive Tokenises (cfg : Config) : List UInt8 → List (Lexeme δ) → Prop
  | nil : Tokenises cfg [] []
  | space {b : UInt8} {rest : List UInt8} {ts : List (Lexeme δ)} (hb : b ∈ whitespace)
      (h : Tokenises cfg rest ts) : Tokenises cfg (b :: rest) ts
  | token {text rest : List UInt8} {x : Lexeme δ} {ts : List (Lexeme δ)} (hx : Spells cfg text x)
      (h : Tokenises cfg rest ts) : Tokenises cfg (text ++ rest) (x :: ts)
  | number {n : Numeral} {rest : List UInt8} {ts : List (Lexeme δ)} (hn : n.Readable cfg)
      (hend : ∀ b ∈ rest.head?, ¬n.Continues b) (h : Tokenises cfg rest ts) :
      Tokenises cfg (n.text ++ rest) (n.lexeme :: ts)
  | stub {text : List UInt8} {v : δ} (h : Stub cfg text v) : Tokenises cfg text [.double v]

end Embedjson
