import Embedjson.ViablePrefixes

namespace Embedjson

open Foundations Foundations.Program Foundations.Utf8 Json

variable {δ : Type} {cfg : Config}

/-- Byte strings that a literal can stand for. With validation a control character is written alone
only when it has an escape of two bytes, but any two bytes are written as `\u` and four digits. -/
inductive Writable (cfg : Config) : List UInt8 → Prop
  | nil : Writable cfg []
  | char {c : Char} {out : List UInt8} (hc : 0x20 ≤ c.val.toNat) (hplane : ¬PlaneTwo c)
      (h : Writable cfg out) : Writable cfg (String.utf8EncodeChar c ++ out)
  | control {b : UInt8} {out : List UInt8} (hb : b ∈ [0x08, 0x09, 0x0a, 0x0c, 0x0d])
      (h : Writable cfg out) : Writable cfg (b :: out)
  | pair (a b : UInt8) {out : List UInt8} (h : Writable cfg out) : Writable cfg (a :: b :: out)
  | unchecked (hv : ¬cfg.validateUtf8 = true) (b : UInt8) {out : List UInt8}
      (h : Writable cfg out) : Writable cfg (b :: out)

section Strings

variable {out content : List UInt8}

lemma writable_unchecked (hv : ¬cfg.validateUtf8 = true) (out : List UInt8) : Writable cfg out := by
  induction out with
  | nil => exact .nil
  | cons b out ih => exact .unchecked hv b ih

lemma plain_of_char {c : Char} (hc : c ≠ '\"' ∧ c ≠ '\\') :
    ∀ b ∈ String.utf8EncodeChar c, b ≠ '\\'.toUInt8 ∧ b ≠ '\"'.toUInt8 := by
  have hne {b : UInt8} (d : Char) (hb : b ∈ String.utf8EncodeChar c) (hascii : b ≤ 0x7f)
      (hd : d.val.toNat = b.toNat) : c = d := by
    have hone : [c].flatMap String.utf8EncodeChar = [b] := by
      rw [List.flatMap_singleton, (encoded_utf8EncodeChar c).eq_singleton hb hascii]
    obtain ⟨_, _, hcons, hval, -⟩ := first_ascii hone hascii
    obtain ⟨rfl, -⟩ := List.cons.inj hcons
    exact Char.ext (UInt32.toNat_inj.mp (hval.trans hd.symm))
  intro b hb
  constructor
  · rintro rfl
    exact hc.2 (hne '\\' hb (by decide) rfl)
  · rintro rfl
    exact hc.1 (hne '\"' hb (by decide) rfl)

lemma decodes_plain (h : ∀ b ∈ out, b ≠ '\\'.toUInt8 ∧ b ≠ '\"'.toUInt8) : Decodes out out := by
  induction out with
  | nil => exact .nil
  | cons b out ih =>
    rw [List.forall_mem_cons] at h
    exact .byte h.1.1 h.1.2 (ih h.2)

variable (cfg) in
lemma item_decodes {item : Item} (hplane : ∀ c h, item = .char c h → ¬PlaneTwo c) :
    ∃ front, Decodes item.bytes front ∧ ∀ out, Writable cfg out → Writable cfg (front ++ out) := by
  cases item with
  | char c h =>
    exact ⟨_, decodes_plain (plain_of_char h.2), fun out hout => .char h.1 (hplane c h rfl) hout⟩
  | escape letter h =>
    have hchar {b : UInt8} (c : Char) (hc : String.utf8EncodeChar c = [b]) (hlow : 0x20 ≤ c.val.toNat)
        (hplane : ¬PlaneTwo c) : ∀ out, Writable cfg out → Writable cfg ([b] ++ out) :=
      fun out hout => hc ▸ .char hlow hplane hout
    have hcontrol {b : UInt8} (hb : b ∈ [0x08, 0x09, 0x0a, 0x0c, 0x0d]) :
        ∀ out, Writable cfg out → Writable cfg ([b] ++ out) := fun out hout => .control hb hout
    simp only [List.mem_cons, List.not_mem_nil, or_false] at h
    rcases h with rfl | rfl | rfl | rfl | rfl | rfl | rfl | rfl
    · exact ⟨[0x22], .escape (by decide) .nil, hchar '\"' rfl (by decide) (by simp [PlaneTwo])⟩
    · exact ⟨[0x5c], .escape (by decide) .nil, hchar '\\' rfl (by decide) (by simp [PlaneTwo])⟩
    · exact ⟨[0x2f], .escape (by decide) .nil, hchar '/' rfl (by decide) (by simp [PlaneTwo])⟩
    · exact ⟨[0x08], .escape (by decide) .nil, hcontrol (by decide)⟩
    · exact ⟨[0x0c], .escape (by decide) .nil, hcontrol (by decide)⟩
    · exact ⟨[0x0a], .escape (by decide) .nil, hcontrol (by decide)⟩
    · exact ⟨[0x0d], .escape (by decide) .nil, hcontrol (by decide)⟩
    · exact ⟨[0x09], .escape (by decide) .nil, hcontrol (by decide)⟩
  | unicode a b c d h =>
    simp only [List.forall_mem_cons] at h
    obtain ⟨ha, hb, hc, hd, -⟩ := h
    have hdigit {x : Char} (hx : x ∈ "0123456789abcdefABCDEF".toList) :
        ∃ n, (x.toUInt8, n) ∈ hexDigits := by
      obtain ⟨v, hv⟩ := hexDigit_digit hx
      exact ⟨v.toNat, ((escape_tables x.toUInt8).2 v hv).1⟩
    obtain ⟨_, ha⟩ := hdigit ha
    obtain ⟨_, hb⟩ := hdigit hb
    obtain ⟨_, hc⟩ := hdigit hc
    obtain ⟨_, hd⟩ := hdigit hd
    exact ⟨_, .unicode ha hb hc hd .nil, fun out hout => .pair _ _ hout⟩

lemma writable_of_items {items : List Item}
    (hplane : ∀ c h, .char c h ∈ items → ¬PlaneTwo c) :
    ∃ out, Decodes (items.flatMap Item.bytes) out ∧ Writable cfg out := by
  induction items with
  | nil => exact ⟨[], .nil, .nil⟩
  | cons item items ih =>
    obtain ⟨out, hout, hwritable⟩ := ih fun c h hmem => hplane c h (List.mem_cons_of_mem _ hmem)
    obtain ⟨front, hfront, hextend⟩ := item_decodes cfg fun c h (heq : item = _) =>
      hplane c h (heq ▸ List.mem_cons_self)
    exact ⟨front ++ out, hfront.append hout, hextend out hwritable⟩

lemma Content.writable (h : Content cfg content out) : Writable cfg out := by
  by_cases hv : cfg.validateUtf8 = true
  · obtain ⟨items, rfl, hplane⟩ := h.items hv
    obtain ⟨out', hout, hwritable⟩ := writable_of_items hplane
    rwa [h.decodes.unique hout]
  · exact writable_unchecked hv out

lemma exists_digits (b : UInt8) : ∃ x ∈ "0123456789abcdefABCDEF".toList,
    ∃ y ∈ "0123456789abcdefABCDEF".toList, ∃ m n, (x.toUInt8, m) ∈ hexDigits ∧
      (y.toUInt8, n) ∈ hexDigits ∧ UInt8.ofNat (16 * m + n) = b := by
  have hall : ((List.range 16).all fun n =>
      "0123456789abcdefABCDEF".toList.any fun x => hexDigits.contains (x.toUInt8, n)) = true := by
    decide
  have hdigit {n : ℕ} (hn : n < 16) :
      ∃ x ∈ "0123456789abcdefABCDEF".toList, (x.toUInt8, n) ∈ hexDigits := by
    have hany := List.all_eq_true.mp hall n (List.mem_range.mpr hn)
    obtain ⟨x, hx, hmem⟩ := List.any_eq_true.mp hany
    exact ⟨x, hx, List.contains_iff_mem.mp hmem⟩
  have hb := b.toNat_lt
  obtain ⟨x, hx, hx'⟩ := hdigit (n := b.toNat / 16) (by omega)
  obtain ⟨y, hy, hy'⟩ := hdigit (n := b.toNat % 16) (by omega)
  exact ⟨x, hx, y, hy, _, _, hx', hy', by rw [Nat.div_add_mod, UInt8.ofNat_toNat]⟩

lemma Writable.items (h : Writable cfg out) (hv : cfg.validateUtf8 = true) :
    ∃ items : List Item, Decodes (items.flatMap Item.bytes) out ∧
      ∀ c h, .char c h ∈ items → ¬PlaneTwo c := by
  have hcons (item : Item) {front out : List UInt8} (hitem : Decodes item.bytes front)
      (hplain : ∀ c h, item = .char c h → ¬PlaneTwo c)
      (hrest : ∃ items : List Item, Decodes (items.flatMap Item.bytes) out ∧
        ∀ c h, .char c h ∈ items → ¬PlaneTwo c) :
      ∃ items : List Item, Decodes (items.flatMap Item.bytes) (front ++ out) ∧
        ∀ c h, .char c h ∈ items → ¬PlaneTwo c := by
    obtain ⟨items, hdecodes, hplane⟩ := hrest
    refine ⟨item :: items, hitem.append hdecodes, fun c h hmem => ?_⟩
    rcases List.mem_cons.mp hmem with heq | hmem
    · exact hplain c h heq.symm
    · exact hplane c h hmem
  induction h with
  | nil => exact ⟨[], .nil, by simp⟩
  | @char c out hlow hplane h ih =>
    by_cases hc : c ≠ '\"' ∧ c ≠ '\\'
    · refine hcons (.char c ⟨hlow, hc⟩) (decodes_plain (plain_of_char hc)) ?_ ih
      rintro _ _ ⟨⟩
      exact hplane
    · have hescaped : c = '\"' ∨ c = '\\' := by
        rw [not_and_or, not_not, not_not] at hc
        exact hc
      rcases hescaped with rfl | rfl
      · exact hcons (.escape '\"' (by decide)) (.escape (e := 0x22) (by decide) .nil) (by simp) ih
      · exact hcons (.escape '\\' (by decide)) (.escape (e := 0x5c) (by decide) .nil) (by simp) ih
  | @control b out hb h ih =>
    simp only [List.mem_cons, List.not_mem_nil, or_false] at hb
    rcases hb with rfl | rfl | rfl | rfl | rfl
    · exact hcons (.escape 'b' (by decide)) (.escape (e := 0x08) (by decide) .nil) (by simp) ih
    · exact hcons (.escape 't' (by decide)) (.escape (e := 0x09) (by decide) .nil) (by simp) ih
    · exact hcons (.escape 'n' (by decide)) (.escape (e := 0x0a) (by decide) .nil) (by simp) ih
    · exact hcons (.escape 'f' (by decide)) (.escape (e := 0x0c) (by decide) .nil) (by simp) ih
    · exact hcons (.escape 'r' (by decide)) (.escape (e := 0x0d) (by decide) .nil) (by simp) ih
  | @pair a b out h ih =>
    obtain ⟨w, hw, x, hx, m, n, hm, hn, rfl⟩ := exists_digits a
    obtain ⟨y, hy, z, hz, k, l, hk, hl, rfl⟩ := exists_digits b
    have hall : ∀ d ∈ [w, x, y, z], d ∈ "0123456789abcdefABCDEF".toList := by
      simp only [List.forall_mem_cons]
      exact ⟨hw, hx, hy, hz, List.forall_mem_nil _⟩
    exact hcons (.unicode w x y z hall) (.unicode hm hn hk hl .nil) (by simp) ih
  | unchecked hv' b h ih => exact absurd hv hv'

lemma exists_decodes (out : List UInt8) : ∃ text, Decodes text out := by
  induction out with
  | nil => exact ⟨[], .nil⟩
  | cons b out ih =>
    obtain ⟨text, h⟩ := ih
    by_cases hslash : b = '\\'.toUInt8
    · subst hslash
      exact ⟨'\\'.toUInt8 :: '\\'.toUInt8 :: text, .escape (e := 0x5c) (by decide) h⟩
    · by_cases hquote : b = '\"'.toUInt8
      · subst hquote
        exact ⟨'\\'.toUInt8 :: '\"'.toUInt8 :: text, .escape (e := 0x22) (by decide) h⟩
      · exact ⟨_, .byte hslash hquote h⟩

lemma Writable.exists_content (h : Writable cfg out) :
    ∃ content, Content cfg content out := by
  by_cases hv : cfg.validateUtf8 = true
  · obtain ⟨items, hdecodes, hplane⟩ := h.items hv
    exact ⟨_, hdecodes, fun _ => ⟨items, rfl, hplane⟩⟩
  · obtain ⟨content, hdecodes⟩ := exists_decodes out
    exact ⟨content, hdecodes, fun hv' => absurd hv' hv⟩

end Strings

section Numbers

lemma exists_digit {k : ℕ} (hk : k < 10) : ∃ b : UInt8, isDigit b = true ∧ digit b = k := by
  have hall : ∀ k < 10, isDigit (UInt8.ofNat (k + 48)) = true ∧
      (UInt8.ofNat (k + 48)).toNat = k + 48 := by
    decide
  obtain ⟨hb, hvalue⟩ := hall k hk
  exact ⟨_, hb, by rw [digit, hvalue]; omega⟩

lemma exists_decimal (n : ℕ) : ∃ ds, IsInt ds ∧ decimal ds = n := by
  induction n using Nat.strong_induction_on with
  | _ n ih =>
    by_cases hn : n < 10
    · obtain ⟨b, hb, hvalue⟩ := exists_digit hn
      exact ⟨[b], isInt_singleton hb, by simpa [decimal] using hvalue⟩
    · obtain ⟨ds, hint, hds⟩ := ih (n / 10) (by omega)
      obtain ⟨b, hb, hvalue⟩ := exists_digit (Nat.mod_lt n (by omega : 0 < 10))
      refine ⟨ds ++ [b], hint.concat (by omega) hb, ?_⟩
      rw [decimal_concat, hds, hvalue]
      omega

end Numbers

variable [DoubleArith δ]

/-- Some text spells the token, whatever follows it. -/
def Lexeme.Expressible (cfg : Config) : Lexeme δ → Prop
  | .tok _ => True
  | .int v => |v| / 10 + |v| % 10 ≤ cfg.intMax / 10
  | .double v => ∃ n : Numeral, n.Readable cfg ∧ n.lexeme = .double v
  | .string text => ∃ out, Writable cfg out ∧ text = out.map fun b => [b]

section Tokens

variable {x : Lexeme δ} {ts : List (Lexeme δ)} {bytes : List UInt8}

lemma Spells.expressible {text : List UInt8} (h : Spells cfg text x) : x.Expressible cfg := by
  cases h with
  | symbol h => trivial
  | keyword h => trivial
  | string h => exact ⟨_, h.writable, rfl⟩

lemma Numeral.Readable.expressible {n : Numeral} (h : n.Readable cfg) :
    (n.lexeme : Lexeme δ).Expressible cfg := by
  by_cases hint : (n.frac.isNone && n.exp.isNone) = true
  · have habs : |signed n.minus (decimal n.int)| = decimal n.int := by
      have hnonneg := decimal_nonneg n.isInt.digits
      cases n.minus with
      | false => exact abs_of_nonneg hnonneg
      | true => exact (abs_neg _).trans (abs_of_nonneg hnonneg)
    rw [Numeral.lexeme, if_pos hint, Lexeme.Expressible, habs]
    exact h.fits
  · rw [Numeral.lexeme, if_neg hint]
    exact ⟨n, h, by rw [Numeral.lexeme, if_neg hint]⟩

lemma Tokenises.expressible (h : Tokenises cfg bytes ts) : (∀ x ∈ ts, x.Expressible cfg) ∨
    ∃ front text v, Stub cfg text v ∧ ts = front ++ [.double v] := by
  have hcons {y : Lexeme δ} {us : List (Lexeme δ)} (hy : y.Expressible cfg)
      (h : (∀ x ∈ us, x.Expressible cfg) ∨
        ∃ front text v, Stub cfg text v ∧ us = front ++ [.double v]) :
      (∀ x ∈ y :: us, x.Expressible cfg) ∨
        ∃ front text v, Stub cfg text v ∧ y :: us = front ++ [.double v] := by
    rcases h with h | ⟨front, text, v, hstub, rfl⟩
    · exact .inl (List.forall_mem_cons.mpr ⟨hy, h⟩)
    · exact .inr ⟨y :: front, text, v, hstub, rfl⟩
  induction h with
  | nil => exact .inl (List.forall_mem_nil _)
  | space _ _ ih => exact ih
  | token hx _ ih => exact hcons hx.expressible ih
  | number hn _ _ ih => exact hcons hn.expressible ih
  | stub h => exact .inr ⟨[], _, _, h, rfl⟩

lemma Lexeme.Expressible.leads (h : x.Expressible cfg) : ∃ text, Leads cfg text [x] [] := by
  have hnumber {n : Numeral} (hn : n.Readable cfg) (hx : n.lexeme = x) :
      ∃ text, Leads cfg text [x] [] := ⟨_, hx ▸ leads_number hn⟩
  have hsymbol {b : UInt8} {tok : Tok} (hb : structural b = some tok) (hx : x = .tok tok) :
      ∃ text, Leads cfg text [x] [] := ⟨_, hx ▸ leads_token (.symbol hb)⟩
  have hword {word : List UInt8} {tok : Tok} (hw : (word, tok) ∈ keywords) (hx : x = .tok tok) :
      ∃ text, Leads cfg text [x] [] := ⟨_, hx ▸ leads_token (.keyword hw)⟩
  cases x with
  | tok t =>
    cases t with
    | openCurlyBracket => exact hsymbol (b := '\x7b'.toUInt8) rfl rfl
    | closeCurlyBracket => exact hsymbol (b := '\x7d'.toUInt8) rfl rfl
    | openBracket => exact hsymbol (b := '['.toUInt8) rfl rfl
    | closeBracket => exact hsymbol (b := ']'.toUInt8) rfl rfl
    | comma => exact hsymbol (b := ','.toUInt8) rfl rfl
    | colon => exact hsymbol (b := ':'.toUInt8) rfl rfl
    | true => exact hword (.head _) rfl
    | false => exact hword (.tail _ (.head _)) rfl
    | null => exact hword (.tail _ (.tail _ (.head _))) rfl
  | int v =>
    obtain ⟨ds, hint, hds⟩ := exists_decimal v.natAbs
    have hfits : FitsInt cfg ds := by
      rw [FitsInt, hds, ← Int.abs_eq_natAbs]
      exact h
    refine hnumber (n := ⟨integerMantissa (decide (v < 0)) hint, none⟩)
      ⟨hfits, isFrac_none_mod, by simp⟩ ?_
    have hsigned : signed (decide (v < 0)) (decimal ds) = v := by
      by_cases hv : v < 0
      · rw [hds, decide_eq_true hv, signed, if_pos rfl]
        omega
      · rw [hds, decide_eq_false hv, signed, if_neg Bool.false_ne_true]
        omega
    exact congrArg Lexeme.int hsigned
  | double v =>
    obtain ⟨n, hn, hx⟩ := h
    exact hnumber hn hx
  | string text =>
    obtain ⟨out, hout, rfl⟩ := h
    obtain ⟨content, hcontent⟩ := hout.exists_content
    exact ⟨_, leads_token (.string hcontent)⟩

lemma exists_text (h : ∀ x ∈ ts, x.Expressible cfg) : ∃ text, Leads cfg text ts [] := by
  induction ts with
  | nil => exact ⟨[], leads_nil []⟩
  | cons x ts ih =>
    rw [List.forall_mem_cons] at h
    obtain ⟨front, hfront⟩ := h.1.leads
    obtain ⟨back, hback⟩ := ih h.2
    exact ⟨front ++ back, hfront.append hback⟩

end Tokens

section Values

variable {v : Json δ}

def Json.Expressible (cfg : Config) (v : Json δ) : Prop :=
  (∀ x ∈ serialise .implemented v, x.Expressible cfg) ∨ ∃ x text, v = .double x ∧ Stub cfg text x

omit [DoubleArith δ] in
lemma serialise_double {front : List (Lexeme δ)} {y : δ}
    (h : serialise .implemented v = front ++ [.double y]) : v = .double y := by
  have hlast : (serialise .implemented v).getLast? = some (.double y) := by
    rw [h, List.getLast?_concat]
  cases v with
  | null => simp [serialise] at hlast
  | bool b => cases b <;> simp [serialise] at hlast
  | int v => simp [serialise] at hlast
  | double v => simpa [serialise] using hlast
  | string text => simp [serialise] at hlast
  | array es =>
    rw [serialise, List.getLast?_concat] at hlast
    cases hlast
  | object ms =>
    rw [serialise, List.getLast?_concat] at hlast
    cases hlast

lemma Tokenises.expressible_value {bytes : List UInt8}
    (h : Tokenises cfg bytes (serialise .implemented v)) : v.Expressible cfg := by
  rcases h.expressible with h | ⟨front, text, y, hstub, hlast⟩
  · exact .inl h
  · exact .inr ⟨y, text, serialise_double hlast, hstub⟩

lemma Json.Expressible.exists_text (h : v.Expressible cfg) :
    ∃ text, Tokenises cfg text (serialise .implemented v) := by
  rcases h with h | ⟨y, text, rfl, hstub⟩
  · obtain ⟨text, hleads⟩ := Embedjson.exists_text h
    have hall := hleads [] [] .nil
    rw [List.append_nil, List.append_nil] at hall
    exact ⟨text, hall⟩
  · exact ⟨text, .stub hstub⟩

variable {answer : List (UserCall δ) → UserCall δ → ℤ}

theorem callbacks_iff (hdebug : cfg.debug = false) (hstatic : cfg.dynamicStack = false)
    (hbits : 8 ≤ cfg.intBits) (hA : Accepting UserCall.isError answer) (us : List (UserCall δ)) :
    (∃ chunks, (cfg.validateUtf8 = true → WellFormed chunks.flatten) ∧
        Parses cfg answer chunks us) ↔
      ∃ v : Json δ, v.Expressible cfg ∧ depth v ≤ cfg.stackLimit ∧ us = traversal v := by
  constructor
  · rintro ⟨chunks, hutf8, h⟩
    rw [parses_iff_observe hA, observe_parse_iff chunks hdebug hstatic hbits hutf8] at h
    obtain ⟨v, htext, hdepth, rfl⟩ := h
    exact ⟨v, htext.expressible_value, hdepth, rfl⟩
  · rintro ⟨v, hv, hdepth, rfl⟩
    obtain ⟨text, htext⟩ := hv.exists_text
    rw [← List.flatten_singleton (l := text)] at htext
    have hutf8 (hv : cfg.validateUtf8 = true) := htext.wellFormed hv
    refine ⟨[text], hutf8, ?_⟩
    rw [parses_iff_observe hA, observe_parse_iff [text] hdebug hstatic hbits hutf8]
    exact ⟨v, htext, hdepth, rfl⟩

end Values

/-- No text makes the parser hand over the largest `embedjson_int_t`. -/
theorem callbacks_iff_largest : ¬∃ chunks,
    (Config.default.validateUtf8 = true → WellFormed chunks.flatten) ∧
      Parses (δ := ℚ) .default (accept UserCall.isError) chunks [.int Config.default.intMax] := by
  rw [callbacks_iff rfl rfl (by decide) (accepting_accept _)]
  rintro ⟨v, hv, -, htraversal⟩
  cases v with
  | int w =>
    cases htraversal
    rcases hv with hv | ⟨_, _, h, -⟩
    · have hlarge : ¬|Config.default.intMax| / 10 + |Config.default.intMax| % 10 ≤
          Config.default.intMax / 10 := by decide
      exact hlarge (hv _ (.head _))
    · cases h
  | null => cases htraversal
  | bool b => cases htraversal
  | double x => cases htraversal
  | string text => cases htraversal
  | array es => cases htraversal
  | object ms => cases htraversal

end Embedjson
