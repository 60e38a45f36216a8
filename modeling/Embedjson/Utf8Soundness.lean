import Embedjson.Lexer.Counters

namespace Embedjson

open Foundations Foundations.Program Foundations.Utf8

variable {δ : Type}

/-- The four faults that the validator lets through where a character should begin: a stray
continuation byte, a lead of no character, a surrogate, and a lead from `f1` to `f3` without a
continuation byte. -/
inductive Slip : List UInt8 → Prop
  | stray {b rest} (h : Tail b) : Slip (b :: rest)
  | lead {b rest} (h : b ∈ [0xc0, 0xc1, 0xf5, 0xf6, 0xf7]) : Slip (b :: rest)
  | surrogate {b rest} (h₁ : 0xa0 ≤ b) (h₂ : b ≤ 0xbf) : Slip (0xed :: b :: rest)
  | unchecked {b rest} (h₁ : 0xf1 ≤ b) (h₂ : b ≤ 0xf3) (h : ∀ c ∈ rest.head?, ¬Tail c) :
      Slip (b :: rest)

def Slipped (body : List UInt8) : Prop := ∃ text rest, body = text ++ rest ∧ WellFormed text ∧ Slip rest

def Sound (body : List UInt8) : Prop := WellFormed body ∧ ∀ b ∈ body, 0x20 ≤ b

section Texts

variable {body text rest : List UInt8}

lemma Slip.ne_nil (h : Slip rest) : rest ≠ [] := by cases h <;> simp

lemma first_byte (b : UInt8) :
    (Tail b → ¬(b ≤ 0x7f ∨ 0xc2 ≤ b)) ∧
    (b ∈ [0xc0, 0xc1, 0xf5, 0xf6, 0xf7] → ¬b ≤ 0x7f ∧ ¬(0xc2 ≤ b ∧ b ≤ 0xf4)) ∧
    (0xf1 ≤ b → ¬b ≤ 0xef) := by
  revert b
  decide +kernel

lemma Slip.not_encoded {ch : List UInt8} (h : Slip (ch ++ rest)) : ¬Encoded ch := by
  intro hch
  obtain ⟨a, l, rfl⟩ := List.exists_cons_of_ne_nil hch.ne_nil
  generalize hall : a :: l ++ rest = all at h
  cases h with
  | stray h =>
    obtain ⟨rfl, -⟩ := List.cons.inj hall
    exact (first_byte a).1 h (hch.first.imp_right And.left)
  | lead h =>
    obtain ⟨rfl, -⟩ := List.cons.inj hall
    obtain ⟨h₁, h₂⟩ := (first_byte a).2.1 h
    exact hch.first.elim h₁ h₂
  | surrogate h₁ h₂ =>
    obtain ⟨rfl, hl⟩ := List.cons.inj hall
    cases hch with
    | one h => exact absurd h (by decide)
    | two _ h => exact absurd h (by decide)
    | three _ _ hb =>
      obtain ⟨rfl, -⟩ := List.cons.inj hl
      have hle : (0xa0 : UInt8) ≤ 0x9f := UInt8.le_trans h₁ (hb.2.2.1 rfl)
      exact absurd hle (by decide)
    | four h => exact absurd h (by decide)
  | unchecked h₁ h₂ h =>
    obtain ⟨rfl, hl⟩ := List.cons.inj hall
    have hlead := (first_byte a).2.2 h₁
    cases hch with
    | one h => exact hlead (UInt8.le_trans h (by decide))
    | two _ h => exact hlead (UInt8.le_trans h (by decide))
    | three _ h => exact hlead h
    | four _ _ hb =>
      subst hl
      exact h _ rfl hb.1

lemma Slip.not_wellFormed (h : Slip rest) : ¬WellFormed rest := by
  intro hwf
  obtain ⟨ch, tail, rfl, hch, -⟩ := hwf.exists_cons h.ne_nil
  exact h.not_encoded hch

lemma Slipped.not_wellFormed (h : Slipped body) : ¬WellFormed body := by
  obtain ⟨text, rest, rfl, htext, hslip⟩ := h
  exact fun hbody => hslip.not_wellFormed (htext.of_append hbody)

lemma Slipped.append (ht : WellFormed text) (h : Slipped rest) : Slipped (text ++ rest) := by
  obtain ⟨text', rest', rfl, ht', hslip⟩ := h
  exact ⟨text ++ text', rest', (List.append_assoc _ _ _).symm, ht.append ht', hslip⟩

lemma Sound.append (ht : Sound text) (h : Sound rest) : Sound (text ++ rest) :=
  ⟨ht.1.append h.1, fun b hb => (List.mem_append.mp hb).elim (ht.2 b) (h.2 b)⟩

end Texts

variable [DoubleArith δ] {cfg : Config} {s : Scan} {b : UInt8} {body rest : List UInt8}

/-- The scanner takes the bytes as a part of a string, and a quote behind them as its end. -/
def Closes (δ : Type) [DoubleArith δ] (cfg : Config) : Scan → List UInt8 → Prop
  | s, [] => ∃ t, scanStep (δ := δ) cfg s '\"'.toUInt8 = ([.tokencEnd (.buffer s.index)], .ok t)
  | s, b :: rest => ∃ calls t, scanStep (δ := δ) cfg s b = (calls, .ok t) ∧
      (∀ f ∈ calls, f.isChunk) ∧ Closes δ cfg t rest

section Peeling

lemma Closes.ne_error (h : Closes δ cfg s (b :: rest)) {calls : List (LexerCall δ)} {code : ErrorCode} :
    scanStep cfg s b ≠ (calls, .error code) := by
  obtain ⟨calls', t, hstep, -⟩ := h
  simp [hstep]

lemma Closes.next (h : Closes δ cfg s (b :: rest)) {calls : List (LexerCall δ)} {t : Scan}
    (hstep : scanStep cfg s b = (calls, .ok t)) : Closes δ cfg t rest := by
  obtain ⟨calls', t', hstep', -, hrest⟩ := h
  rw [hstep] at hstep'
  cases hstep'
  exact hrest

variable (hv : cfg.validateUtf8 = true)

include hv

lemma Closes.continuation {nb cc nb' : ℕ} {p : UInt8 → Prop} [DecidablePred p]
    (h : Closes δ cfg s body) (ht : InText s.lex nb cc)
    (hrow : ∀ b, validate nb cc b = if p b then some (nb', 0, true) else none)
    (hp : ∀ b, p b → Tail b) :
    ∃ b rest t, body = b :: rest ∧ p b ∧ InText t.lex nb' 0 ∧ Closes δ cfg t rest := by
  cases body with
  | nil =>
    have hquote : ¬p '\"'.toUInt8 := fun h => absurd (hp _ h) (by decide)
    obtain ⟨code, hstep⟩ := scan_refused (δ := δ) hv ht ((hrow _).trans (if_neg hquote))
    obtain ⟨t, hstep'⟩ := h
    simp [hstep] at hstep'
  | cons b rest =>
    by_cases hb : p b
    · obtain ⟨h₁, h₂, h₃⟩ := tail_plain (hp b hb)
      obtain ⟨lex, hstep, hlex⟩ := scan_byte (δ := δ) hv ht ((hrow b).trans (if_pos hb))
        fun _ => ⟨h₁, h₂, fun _ => h₃⟩
      exact ⟨b, rest, _, rfl, hb, hlex, h.next hstep⟩
    · obtain ⟨code, hstep⟩ := scan_refused (δ := δ) hv ht ((hrow b).trans (if_neg hb))
      exact absurd hstep h.ne_error

def Peels (δ : Type) [DoubleArith δ] (cfg : Config) (body : List UInt8) : Prop :=
  Slip body ∨ ∃ ch rest t, body = ch ++ rest ∧ ch ≠ [] ∧ Sound ch ∧ InText t.lex 0 0 ∧
    Closes δ cfg t rest

omit hv in
lemma peels_sequence {ch : List UInt8} {a : UInt8} {t : Scan} (hch : Encoded (a :: ch))
    (ha : 0x20 ≤ a) (hrest : ∀ b ∈ ch, Tail b) (ht : InText t.lex 0 0) (h : Closes δ cfg t rest) :
    Peels δ cfg (a :: (ch ++ rest)) := by
  refine .inr ⟨a :: ch, rest, t, rfl, by simp, ⟨hch.wellFormed, ?_⟩, ht, h⟩
  rintro b (_ | ⟨_, hb⟩)
  · exact ha
  · exact UInt8.le_trans (by decide) (hrest b hb).1

lemma peels_two (h : Closes δ cfg s (b :: rest)) (ht : InText s.lex 0 0) (h₁ : 0xc2 ≤ b)
    (h₂ : b ≤ 0xdf) : Peels δ cfg (b :: rest) := by
  obtain ⟨lex, hstep, hlex⟩ := scan_byte (δ := δ) hv ht (validate_lead_two h₁ h₂) nofun
  obtain ⟨c, rest, t, rfl, hc, ht, hrest⟩ :=
    (h.next hstep).continuation hv hlex validate_one fun _ => id
  exact peels_sequence (.two h₁ h₂ hc) (UInt8.le_trans (by decide) h₁) (by simpa using hc) ht hrest

lemma peels_three (h : Closes δ cfg s (b :: rest)) (ht : InText s.lex 0 0) (h₁ : 0xe0 ≤ b)
    (h₂ : b ≤ 0xef) : Peels δ cfg (b :: rest) := by
  have h₀ : 0x20 ≤ b := UInt8.le_trans (by decide) h₁
  obtain ⟨lex, hstep, hlex⟩ := scan_byte (δ := δ) hv ht (validate_lead_three h₁ h₂) nofun
  by_cases hb : b = 0xe0
  · subst hb
    obtain ⟨c, rest, t, rfl, hc, ht, hrest⟩ := (h.next hstep).continuation hv hlex validate_e0
      fun _ h => ⟨UInt8.le_trans (by decide) h.1, h.2⟩
    obtain ⟨d, rest, t, rfl, hd, ht, hrest⟩ := hrest.continuation hv ht validate_one fun _ => id
    have hc' : Tail c := ⟨UInt8.le_trans (by decide) hc.1, hc.2⟩
    exact peels_sequence (.three h₁ h₂ ⟨hc', fun _ => hc.1, nofun, nofun, nofun⟩ hd) h₀
      (by simpa using ⟨hc', hd⟩) ht hrest
  · rw [if_neg hb] at hlex
    obtain ⟨c, rest, t, rfl, hc, ht, hrest⟩ :=
      (h.next hstep).continuation hv hlex validate_two fun _ => id
    obtain ⟨d, rest, t, rfl, hd, ht, hrest⟩ := hrest.continuation hv ht validate_one fun _ => id
    by_cases hs : b = 0xed ∧ 0xa0 ≤ c
    · obtain ⟨rfl, hc'⟩ := hs
      exact .inl (.surrogate hc' hc.2)
    · have hne (x : UInt8) (hx : ¬x ≤ 0xef) : b ≠ x := fun h => hx (h ▸ h₂)
      have hsecond : Second b c := by
        refine ⟨hc, fun h => absurd h hb, fun h => ?_, fun h => absurd h (hne _ (by decide)),
          fun h => absurd h (hne _ (by decide))⟩
        have hlt : c.toNat < 0xa0 := UInt8.not_le.mp fun hc' => hs ⟨h, hc'⟩
        exact Nat.le_of_lt_succ hlt
      exact peels_sequence (.three h₁ h₂ hsecond hd) h₀ (by simpa using ⟨hc, hd⟩) ht hrest

lemma peels_four {c : UInt8} {t : Scan} (h : Closes δ cfg t rest) (ht : InText t.lex 2 0)
    (h₁ : 0xf0 ≤ b) (h₂ : b ≤ 0xf4) (hc : Second b c) : Peels δ cfg (b :: c :: rest) := by
  obtain ⟨d, rest, t, rfl, hd, ht, hrest⟩ := h.continuation hv ht validate_two fun _ => id
  obtain ⟨e, rest, t, rfl, he, ht, hrest⟩ := hrest.continuation hv ht validate_one fun _ => id
  exact peels_sequence (.four h₁ h₂ hc hd he) (UInt8.le_trans (by decide) h₁)
    (by simpa using ⟨hc.1, hd, he⟩) ht hrest

lemma peels_f0 (h : Closes δ cfg s (0xf0 :: rest)) (ht : InText s.lex 0 0) :
    Peels δ cfg (0xf0 :: rest) := by
  obtain ⟨lex, hstep, hlex⟩ :=
    scan_byte (δ := δ) hv ht (validate_lead_four (b := 0xf0) (by decide) (by decide)) nofun
  have htail (b : UInt8) (hb : 0x90 ≤ b ∧ b ≤ 0x9f ∨ 0xb0 ≤ b ∧ b ≤ 0xbf) :
      Tail b ∧ 0x90 ≤ b := by
    rcases hb with hb | hb
    · exact ⟨⟨UInt8.le_trans (by decide) hb.1, UInt8.le_trans hb.2 (by decide)⟩, hb.1⟩
    · exact ⟨⟨UInt8.le_trans (by decide) hb.1, hb.2⟩, UInt8.le_trans (by decide) hb.1⟩
  obtain ⟨c, rest, t, rfl, hc, ht, hrest⟩ :=
    (h.next hstep).continuation hv hlex validate_f0 fun b hb => (htail b hb).1
  obtain ⟨hc, hc'⟩ := htail c hc
  exact peels_four hv hrest ht (by decide) (by decide) ⟨hc, nofun, nofun, fun _ => hc', nofun⟩

lemma peels_f4 (h : Closes δ cfg s (0xf4 :: rest)) (ht : InText s.lex 0 0) :
    Peels δ cfg (0xf4 :: rest) := by
  obtain ⟨lex, hstep, hlex⟩ :=
    scan_byte (δ := δ) hv ht (validate_lead_four (b := 0xf4) (by decide) (by decide)) nofun
  obtain ⟨c, rest, t, rfl, hc, ht, hrest⟩ := (h.next hstep).continuation hv hlex validate_f4
    fun b hb => ⟨hb.1, UInt8.le_trans hb.2 (by decide)⟩
  have hc' : Tail c := ⟨hc.1, UInt8.le_trans hc.2 (by decide)⟩
  exact peels_four hv hrest ht (by decide) (by decide) ⟨hc', nofun, nofun, nofun, fun _ => hc.2⟩

/-- The leads behind which the source checks nothing. -/
lemma peels_unchecked (h : Closes δ cfg s (b :: rest)) (ht : InText s.lex 0 0) (h₁ : 0xf1 ≤ b)
    (h₂ : b ≤ 0xf3) : Peels δ cfg (b :: rest) := by
  have hlead : 0xf0 ≤ b := UInt8.le_trans (by decide) h₁
  have hlast : b ≤ 0xf4 := UInt8.le_trans h₂ (by decide)
  have hne (x : UInt8) (hx : ¬(0xf1 ≤ x ∧ x ≤ 0xf3)) : b ≠ x := fun h => hx (h ▸ ⟨h₁, h₂⟩)
  obtain ⟨lex, hstep, hlex⟩ := scan_byte (δ := δ) hv ht (validate_lead_four hlead hlast) nofun
  rw [if_neg (hne _ (by decide)), if_neg (hne _ (by decide))] at hlex
  by_cases htail : ∀ c ∈ rest.head?, ¬Tail c
  · exact .inl (.unchecked h₁ h₂ htail)
  · cases rest with
    | nil => simp at htail
    | cons c rest =>
      have hc : Tail c := by simpa using htail
      obtain ⟨hp₁, hp₂, hp₃⟩ := tail_plain hc
      obtain ⟨lex', hstep', hlex'⟩ := scan_byte (δ := δ) (s := ⟨lex, s.index + 1⟩) hv hlex
        (validate_three hc) fun _ => ⟨hp₁, hp₂, fun _ => hp₃⟩
      refine peels_four hv ((h.next hstep).next hstep') hlex' hlead hlast ⟨hc, ?_, ?_, ?_, ?_⟩
      all_goals exact fun h => absurd h (hne _ (by decide))

end Peeling

section Escapes

lemma sound_ascii {ch : List UInt8} (h : ∀ b ∈ ch, 0x20 ≤ b ∧ b ≤ 0x7f) : Sound ch := by
  refine ⟨?_, fun b hb => (h b hb).1⟩
  induction ch with
  | nil => exact wellFormed_nil
  | cons b ch ih =>
    exact (WellFormed.cons (.one (h b (by simp)).2) (ih fun c hc => h c (by simp [hc])) :
      WellFormed ([b] ++ ch))

lemma peels_plain {ch : List UInt8} {t : Scan} (h : ∀ c ∈ b :: ch, 0x20 ≤ c ∧ c ≤ 0x7f)
    (ht : InText t.lex 0 0) (hrest : Closes δ cfg t rest) : Peels δ cfg (b :: (ch ++ rest)) :=
  .inr ⟨b :: ch, rest, t, rfl, by simp, sound_ascii h, ht, hrest⟩

lemma escape_ascii (b : UInt8) :
    (escapeByte b ≠ none → 0x20 ≤ b ∧ b ≤ 0x7f) ∧ (hexDigit b ≠ none → 0x20 ≤ b ∧ b ≤ 0x7f) := by
  revert b
  decide +kernel

lemma Closes.digit {k nb cc : ℕ} (h : Closes δ cfg s body) (hs : InDigits s.lex k nb cc) :
    ∃ b rest value, body = b :: rest ∧ hexDigit b = some value ∧ (0x20 ≤ b ∧ b ≤ 0x7f) := by
  cases body with
  | nil =>
    have hquote : scanStep (δ := δ) cfg s '\"'.toUInt8 = ([], .error .badUnicodeEscape) :=
      scan_badDigit hs (by decide)
    obtain ⟨t, hstep⟩ := h
    simp [hquote] at hstep
  | cons b rest =>
    cases hb : hexDigit b with
    | none => exact absurd (scan_badDigit hs hb) h.ne_error
    | some value => exact ⟨b, rest, value, rfl, hb, (escape_ascii b).2 (by simp [hb])⟩

lemma Closes.digits {nb cc : ℕ} (h : Closes δ cfg s body) (hs : InDigits s.lex 0 nb cc) :
    ∃ ch rest t, body = ch ++ rest ∧ (∀ b ∈ ch, 0x20 ≤ b ∧ b ≤ 0x7f) ∧ InText t.lex nb cc ∧
      Closes δ cfg t rest := by
  obtain ⟨b₁, rest, v₁, rfl, hv₁, ha₁⟩ := h.digit hs
  obtain ⟨lex, hstep, hs⟩ := scan_digit (δ := δ) cfg hs (by decide) hv₁
  replace h := h.next hstep
  obtain ⟨b₂, rest, v₂, rfl, hv₂, ha₂⟩ := h.digit hs
  obtain ⟨lex, hstep, hs⟩ := scan_digit (δ := δ) cfg (s := ⟨_, _⟩) hs (by decide) hv₂
  replace h := h.next hstep
  obtain ⟨b₃, rest, v₃, rfl, hv₃, ha₃⟩ := h.digit hs
  obtain ⟨lex, hstep, hs⟩ := scan_digit (δ := δ) cfg (s := ⟨_, _⟩) hs (by decide) hv₃
  replace h := h.next hstep
  obtain ⟨b₄, rest, v₄, rfl, hv₄, ha₄⟩ := h.digit hs
  obtain ⟨lex, x, y, hstep, ht⟩ := scan_lastDigit (δ := δ) cfg (s := ⟨_, _⟩) hs hv₄
  exact ⟨[b₁, b₂, b₃, b₄], rest, _, rfl, by simpa using ⟨ha₁, ha₂, ha₃, ha₄⟩, ht, h.next hstep⟩

lemma Closes.escape (h : Closes δ cfg s body) (hs : s.lex.state = .inStringEscape) :
    ∃ ch rest t, body = ch ++ rest ∧ (∀ b ∈ ch, 0x20 ≤ b ∧ b ≤ 0x7f) ∧
      InText t.lex s.lex.nb s.lex.cc ∧ Closes δ cfg t rest := by
  cases body with
  | nil =>
    obtain ⟨t, hstep⟩ := h
    obtain ⟨lex, hstep', -⟩ := scan_simpleEscape (δ := δ) cfg hs
      (show escapeByte '\"'.toUInt8 = some '\"'.toUInt8 by decide)
    rw [hstep'] at hstep
    simp [charCall] at hstep
  | cons b rest =>
    cases hb : escapeByte b with
    | some e =>
      obtain ⟨lex, hstep, ht⟩ := scan_simpleEscape (δ := δ) cfg hs hb
      exact ⟨[b], rest, _, rfl, by simpa using (escape_ascii b).1 (by simp [hb]), ht, h.next hstep⟩
    | none =>
      by_cases hu : b = 'u'.toUInt8
      · subst hu
        obtain ⟨lex, hstep, hd⟩ := scan_unicodeEscape (δ := δ) cfg hs
        obtain ⟨ch, rest, t, rfl, hch, ht, hrest⟩ := (h.next hstep).digits hd
        refine ⟨'u'.toUInt8 :: ch, rest, t, rfl, ?_, ht, hrest⟩
        exact List.forall_mem_cons.mpr ⟨by decide, hch⟩
      · exact absurd (scan_badEscape hs hb hu) h.ne_error

end Escapes

section Strings

lemma byte_class (b : UInt8) :
    b ≤ 0x7f ∨ Tail b ∨ b ∈ [0xc0, 0xc1, 0xf5, 0xf6, 0xf7] ∨ (0xc2 ≤ b ∧ b ≤ 0xdf) ∨
      (0xe0 ≤ b ∧ b ≤ 0xef) ∨ b = 0xf0 ∨ (0xf1 ≤ b ∧ b ≤ 0xf3) ∨ b = 0xf4 ∨
      validate 0 0 b = none := by
  revert b
  decide +kernel

variable (hv : cfg.validateUtf8 = true)

include hv

lemma Closes.peels_ascii (h : Closes δ cfg s (b :: rest)) (ht : InText s.lex 0 0) (hb : b ≤ 0x7f) :
    Peels δ cfg (b :: rest) := by
  have hval := validate_ascii hb
  by_cases hslash : b = '\\'.toUInt8
  · subst hslash
    obtain ⟨lex, hstep, hs, hnb, hcc⟩ := scan_backslash (δ := δ) hv ht hval
    obtain ⟨ch, rest, t, rfl, hch, ht, hrest⟩ := (h.next hstep).escape hs
    rw [hnb, hcc] at ht
    exact peels_plain (List.forall_mem_cons.mpr ⟨by decide, hch⟩) ht hrest
  by_cases hquote : b = '\"'.toUInt8
  · subst hquote
    obtain ⟨lex, hstep, -⟩ := scan_quote (δ := δ) hv ht hval
    obtain ⟨calls, t, hstep', hcalls, -⟩ := h
    rw [hstep] at hstep'
    cases hstep'
    simp [LexerCall.isChunk] at hcalls
  by_cases hcontrol : b < 0x20
  · obtain ⟨code, hstep⟩ := scan_control (δ := δ) hv ht hval hcontrol
    exact absurd hstep h.ne_error
  · obtain ⟨lex, hstep, hlex⟩ :=
      scan_byte (δ := δ) hv ht hval fun _ => ⟨hslash, hquote, fun _ => hcontrol⟩
    have hplain : ∀ c ∈ [b], 0x20 ≤ c ∧ c ≤ 0x7f := by simpa using ⟨UInt8.not_lt.mp hcontrol, hb⟩
    exact peels_plain hplain hlex (h.next hstep)

lemma Closes.peels (h : Closes δ cfg s (b :: rest)) (ht : InText s.lex 0 0) :
    Peels δ cfg (b :: rest) := by
  rcases byte_class b with hb | hb | hb | hb | hb | rfl | hb | rfl | hb
  · exact h.peels_ascii hv ht hb
  · exact .inl (.stray hb)
  · exact .inl (.lead hb)
  · exact peels_two hv h ht hb.1 hb.2
  · exact peels_three hv h ht hb.1 hb.2
  · exact peels_f0 hv h ht
  · exact peels_unchecked hv h ht hb.1 hb.2
  · exact peels_f4 hv h ht
  · obtain ⟨code, hstep⟩ := scan_refused (δ := δ) hv ht hb
    exact absurd hstep h.ne_error

lemma Closes.sound_or_slipped (n : ℕ) (hn : body.length ≤ n) (h : Closes δ cfg s body)
    (ht : InText s.lex 0 0) : Sound body ∨ Slipped body := by
  induction n generalizing body s with
  | zero =>
    obtain rfl := List.eq_nil_of_length_eq_zero (Nat.le_zero.mp hn)
    exact .inl ⟨wellFormed_nil, by simp⟩
  | succ n ih =>
    cases body with
    | nil => exact .inl ⟨wellFormed_nil, by simp⟩
    | cons b body =>
      rcases h.peels hv ht with hslip | ⟨ch, rest, t, heq, hne, hch, ht, hrest⟩
      · exact .inr ⟨[], _, rfl, wellFormed_nil, hslip⟩
      · have hlen := congrArg List.length heq
        rw [List.length_append] at hlen
        have hpos := List.length_pos_of_ne_nil hne
        rw [heq]
        exact (ih (by omega) hrest ht).imp hch.append (.append hch.1)

lemma Closes.sound_iff {nb cc : ℕ} (h : Closes δ cfg s body) (ht : InText s.lex nb cc)
    (hrest : AtRest nb cc) : Sound body ↔ ¬Slipped body := by
  refine ⟨fun hs hslip => hslip.not_wellFormed hs.1, fun hslip => ?_⟩
  obtain ⟨rfl | rfl, rfl⟩ := hrest
  · exact (h.sound_or_slipped hv _ le_rfl ht).resolve_right hslip
  · obtain ⟨b, rest, t, rfl, hb, -⟩ := h.continuation hv ht validate_two fun _ => id
    exact absurd ⟨[], _, rfl, wellFormed_nil, .stray hb⟩ hslip

end Strings

section Runs

variable {calls after : List (LexerCall δ)} {t : Scan}

lemma closes_of_run (h : (scanner cfg).run s body = (calls, .ok t)) (hcalls : ∀ f ∈ calls, f.isChunk)
    (ht : Closes δ cfg t []) : Closes δ cfg s body := by
  induction body generalizing s calls with
  | nil =>
    cases h
    exact ht
  | cons b rest ih =>
    rcases hstep : scanStep (δ := δ) cfg s b with ⟨os, code | u⟩
    · rw [Transducer.run_cons_error (scanner cfg) hstep] at h
      cases h
    · rw [Transducer.run_cons_ok (scanner cfg) hstep, Prod.mk.injEq] at h
      obtain ⟨rfl, hr⟩ := h
      exact ⟨os, u, hstep, fun f hf => hcalls f (List.mem_append_left _ hf),
        ih (Prod.ext rfl hr) fun f hf => hcalls f (List.mem_append_right _ hf)⟩

lemma exists_closes {bytes : List UInt8} {mid : List (LexerCall δ)} {j : ℤ} (hs : s.lex.inside = true)
    (h : ((scanner cfg).run s bytes).1 = mid ++ .tokencEnd (.buffer j) :: after)
    (hmid : ∀ f ∈ mid, f.isChunk) :
    ∃ body rest, bytes = body ++ rest ∧ j = s.index + body.length ∧ Closes δ cfg s body := by
  have hno (p : Pointer) : .tokencEnd p ∉ mid := fun hp => absurd (hmid _ hp) Bool.false_ne_true
  obtain ⟨body, rest, t, u, rfl, hrun, hstep, hj, hchunk⟩ := scanner_ends hs h hno
  obtain rfl : j = t.index := by simpa using hj
  exact ⟨body, _, rfl, scanner_run_index hrun, closes_of_run hrun hchunk ⟨u, hstep⟩⟩

lemma scanner_begins_text (hv : cfg.validateUtf8 = true) {bytes : List UInt8}
    {before : List (LexerCall δ)} {i : ℤ}
    (h : ((scanner cfg).run ⟨.zero, 0⟩ bytes).1 = before ++ .tokencBegin (.buffer i) :: after) :
    ∃ start x rest t nb cc, bytes = start ++ x :: rest ∧ i = start.length ∧
      InText t.lex nb cc ∧ AtRest nb cc ∧ t.index = i + 1 ∧ after = ((scanner cfg).run t rest).1 := by
  obtain ⟨start, rest, calls, u, t, rfl, hrun, hi, hin, hnb, hcc, hstate, hindex, hafter⟩ :=
    scanner_begins h
  obtain rfl : i = u.index := by simpa using hi
  have hcounted := scanner_run_counted hv hrun
  have hrest : AtRest u.lex.nb u.lex.cc := hcounted.atRest fun h => by simp [Lexer.inside, h] at hin
  refine ⟨start, _, rest, t, _, _, rfl, ?_, ⟨hstate, hnb, hcc⟩, hrest, hindex, hafter⟩
  rw [scanner_run_index hrun, zero_add]

end Runs

variable (δ) in
/-- A string that the pushes complete, by the bytes between its two quotes in the whole input. -/
def CompletedString (cfg : Config) (chunks : List (List UInt8)) (body : List UInt8) : Prop :=
  ∃ (i j : ℕ) (before mid after : List (LexerCall δ)),
    trace cfg .zero 0 chunks =
      before ++ .tokencBegin (.buffer i) :: mid ++ .tokencEnd (.buffer j) :: after ∧
    (∀ f ∈ mid, f.isChunk) ∧ body = (chunks.flatten.drop (i + 1)).take (j - (i + 1))

theorem completed_sound_iff (hv : cfg.validateUtf8 = true) {chunks : List (List UInt8)}
    {body : List UInt8} (h : CompletedString δ cfg chunks body) :
    (WellFormed body ∧ ∀ b ∈ body, 0x20 ≤ b) ↔
      ¬∃ text rest, body = text ++ rest ∧ WellFormed text ∧ Slip rest := by
  obtain ⟨i, j, before, mid, after, htrace, hmid, rfl⟩ := h
  obtain ⟨after', hrun⟩ := trace_call rfl htrace
  rw [List.append_assoc, List.cons_append] at hrun
  obtain ⟨start, x, rest, t, nb, cc, hflat, hi, ht, hrest, hindex, hmore⟩ := scanner_begins_text hv hrun
  have hin : t.lex.inside = true := by simp [Lexer.inside, ht.state]
  obtain ⟨body, rest, rfl, hj, hcloses⟩ := exists_closes hin hmore.symm hmid
  have hbody : (chunks.flatten.drop (i + 1)).take (j - (i + 1)) = body := by
    have hlen : i = start.length := by exact_mod_cast hi
    have hsub : j - (i + 1) = body.length := by omega
    have hdrop : start ++ x :: (body ++ rest) = (start ++ [x]) ++ (body ++ rest) := by simp
    rw [hflat, hsub, hdrop, List.drop_left' (by simp [hlen]), List.take_left]
  rw [hbody]
  exact hcloses.sound_iff hv ht hrest

theorem completed_sound_iff_accent :
    (WellFormed [0xc3, 0xa9] ∧ ∀ b ∈ [0xc3, 0xa9], (0x20 : UInt8) ≤ b) ↔
      ¬∃ text rest, [0xc3, 0xa9] = text ++ rest ∧ WellFormed text ∧ Slip rest :=
  completed_sound_iff (δ := ℚ) (show Config.default.validateUtf8 = true from rfl)
    (show CompletedString ℚ .default [[0x22, 0xc3], [0xa9, 0x22]] [0xc3, 0xa9] from
      ⟨0, 3, [], [.tokenc .null [0xc3], .tokenc .null [0xa9]], [], by decide, by decide, by decide⟩)

theorem stray_continuation_completed :
    ¬∀ body, CompletedString ℚ .default [[0x22, 0x80, 0x22]] body →
      WellFormed body ∧ ∀ b ∈ body, 0x20 ≤ b := by
  intro h
  have hcompleted : CompletedString ℚ .default [[0x22, 0x80, 0x22]] [0x80] :=
    ⟨0, 2, [], [.tokenc .null [0x80]], [], by decide, by decide, by decide⟩
  have hslip : Slip [0x80] := .stray (by decide)
  exact hslip.not_wellFormed (h _ hcompleted).1

end Embedjson
