import Embedjson.Lexer.NumberSteps

namespace Embedjson

open Foundations

variable {δ : Type} [DoubleArith δ]

def Moves (cfg : Config) (s : Scan) (bytes : List UInt8) (calls : List (LexerCall δ))
    (P : Lexer → Prop) : Prop :=
  ∃ lex, (scanner cfg).run s bytes = (calls, .ok ⟨lex, s.index + bytes.length⟩) ∧ P lex

def Rejects (cfg : Config) (s : Scan) (bytes : List UInt8) (calls : List (LexerCall δ))
    (code : ErrorCode) : Prop :=
  (scanner cfg).run s bytes = (calls, .error code)

variable {cfg : Config} {s : Scan} {b : UInt8} {xs ys : List UInt8}
  {calls calls' : List (LexerCall δ)} {P Q : Lexer → Prop} {lex lex' : Lexer} {code : ErrorCode}

section Rules

lemma moves_nil (h : P s.lex) : Moves cfg s [] ([] : List (LexerCall δ)) P :=
  ⟨s.lex, by simp, h⟩

lemma moves_one (h : react cfg (recordMagic s.lex b) s.index b = .consume calls lex) (hP : P lex) :
    Moves cfg s [b] calls P := by
  refine ⟨lex, ?_, hP⟩
  rw [Transducer.run_singleton]
  exact scanStep_consume h

lemma moves_unread (h : react cfg (recordMagic s.lex b) s.index b = .unread calls lex)
    (h' : react cfg (recordMagic lex b) s.index b = .consume calls' lex') (hP : P lex') :
    Moves cfg s [b] (calls ++ calls') P := by
  refine ⟨lex', ?_, hP⟩
  rw [Transducer.run_singleton]
  exact scanStep_unread_consume h h'

lemma Moves.append (h : Moves cfg s xs calls P)
    (h' : ∀ lex, P lex → Moves cfg ⟨lex, s.index + xs.length⟩ ys calls' Q) :
    Moves cfg s (xs ++ ys) (calls ++ calls') Q := by
  obtain ⟨lex, hrun, hP⟩ := h
  obtain ⟨lex', hrun', hQ⟩ := h' lex hP
  refine ⟨lex', ?_, hQ⟩
  rw [Transducer.run_append_ok _ hrun, hrun', List.length_append]
  push_cast
  rw [add_assoc]

lemma Moves.rejects (h : Moves cfg s xs calls P)
    (h' : ∀ lex, P lex → Rejects cfg ⟨lex, s.index + xs.length⟩ ys calls' code) :
    Rejects cfg s (xs ++ ys) (calls ++ calls') code := by
  obtain ⟨lex, hrun, hP⟩ := h
  rw [Rejects, Transducer.run_append_ok _ hrun, h' lex hP]

lemma rejects_cons (h : (react cfg (recordMagic s.lex b) s.index b : Reaction δ) = .reject code)
    (ys : List UInt8) : Rejects cfg s (b :: ys) ([] : List (LexerCall δ)) code :=
  Transducer.run_cons_error _ (scanStep_reject h) ys

lemma Rejects.append (h : Rejects cfg s xs calls code) (ys : List UInt8) :
    Rejects cfg s (xs ++ ys) calls code :=
  Transducer.run_append_error _ h ys

end Rules

variable (hbits : 8 ≤ cfg.intBits) {minus negative : Bool} {ds fs es p q : List UInt8}

include hbits

section Integers

lemma moves_digits (h : AtInt cfg minus p s.lex) (hp : p ≠ []) (hint : IsInt (p ++ ds))
    (hfits : FitsInt cfg (p ++ ds)) :
    Moves cfg s ds ([] : List (LexerCall δ)) (AtInt cfg minus (p ++ ds)) := by
  induction ds generalizing p s with
  | nil =>
    rw [List.append_nil]
    exact moves_nil h
  | cons b ds ih =>
    obtain ⟨hdigits, hrest⟩ := digits_append.mp hint.digits
    obtain ⟨hb, hds⟩ := List.forall_mem_cons.mp hrest
    have hpb : Digits (p ++ [b]) := digits_append.mpr ⟨hdigits, digits_singleton.mpr hb⟩
    rw [List.append_cons] at hfits
    have hguard := (fitsInt_concat hdigits hb).mp (hfits.of_append hpb hds)
    obtain ⟨lex, hreact, hlex⟩ := (h.recordMagic b).pushDigit (δ := δ) hbits hb
      (hint.decimal_ne_zero hp) hguard s.index
    rw [List.append_cons] at hint ⊢
    exact (moves_one hreact hlex).append fun lex hlex => ih hlex (by simp) hint hfits

lemma moves_integer (h : AtLookup cfg s.lex) (hint : IsInt ds) (hfits : FitsInt cfg ds)
    (minus : Bool) :
    Moves cfg s (minusText minus ++ ds) ([] : List (LexerCall δ)) (AtInt cfg minus ds) := by
  obtain ⟨c, r, rfl⟩ := List.exists_cons_of_ne_nil hint.ne_nil
  obtain ⟨hc, hr⟩ := List.forall_mem_cons.mp hint.digits
  have hrest {s : Scan} (h : AtInt cfg minus [c] s.lex) :
      Moves cfg s r ([] : List (LexerCall δ)) (AtInt cfg minus (c :: r)) :=
    moves_digits hbits h (List.cons_ne_nil _ _) hint hfits
  cases minus with
  | false =>
    obtain ⟨lex, hreact, hlex⟩ := (h.recordMagic c).firstDigit (δ := δ) hbits hc s.index
    exact (moves_one hreact hlex).append fun lex hlex => hrest hlex
  | true =>
    have hdigit {s : Scan} (h : AtSign cfg s.lex) :
        Moves cfg s [c] ([] : List (LexerCall δ)) (AtInt cfg true [c]) := by
      obtain ⟨lex, hreact, hlex⟩ := (h.recordMagic c).pushDigit (δ := δ) hbits hc s.index
      exact moves_one hreact hlex
    obtain ⟨lex, hreact, hlex⟩ := (h.recordMagic '-'.toUInt8).pushMinus (δ := δ) hbits s.index
    exact (moves_one hreact hlex).append fun lex hlex => (hdigit hlex).append fun lex hlex =>
      hrest hlex

lemma moves_switch (hbignum : cfg.bignum = true) (h : AtInt cfg minus p s.lex)
    (hint : IsInt (p ++ b :: q)) (hp : p ≠ []) (hfits : ¬FitsInt cfg (p ++ [b])) :
    Moves cfg s [b] ([.tokenbnBegin (.buffer s.index) (decimal p)] : List (LexerCall δ))
      (AtBig cfg) := by
  obtain ⟨hdigits, hrest⟩ := digits_append.mp hint.digits
  have hb := (List.forall_mem_cons.mp hrest).1
  rw [fitsInt_concat hdigits hb, not_le] at hfits
  obtain ⟨lex, hreact, hlex⟩ := (h.recordMagic b).big (δ := δ) hbits hb (hint.decimal_ne_zero hp) hfits
    hbignum s.index
  exact moves_one hreact hlex

lemma rejects_switch (hbignum : ¬cfg.bignum = true) (h : AtInt cfg minus p s.lex)
    (hint : IsInt (p ++ b :: q)) (hp : p ≠ []) (hfits : ¬FitsInt cfg (p ++ [b])) (ys : List UInt8) :
    Rejects cfg s (b :: ys) ([] : List (LexerCall δ)) .intOverflow := by
  obtain ⟨hdigits, hrest⟩ := digits_append.mp hint.digits
  have hb := (List.forall_mem_cons.mp hrest).1
  rw [fitsInt_concat hdigits hb, not_le] at hfits
  exact rejects_cons ((h.recordMagic b).overflow hbits hb (hint.decimal_ne_zero hp) hfits hbignum _) ys

end Integers

section Delimiters

variable {d : UInt8} (hd : d ∈ delimiters)

include hd

omit [DoubleArith δ] hbits in
lemma delimiter_plain : ¬isDigit d = true ∧ d ≠ '.'.toUInt8 ∧
    ¬(d = 'e'.toUInt8 ∨ d = 'E'.toUInt8) ∧ ¬isBig d = true := by
  have hall : delimiters.all fun d => !isDigit d && d ≠ '.'.toUInt8 &&
      !(d = 'e'.toUInt8 ∨ d = 'E'.toUInt8) && !isBig d := rfl
  simpa [and_assoc] using List.all_eq_true.mp hall d hd

omit hbits in
lemma moves_delimiter (h : react cfg (recordMagic s.lex d) s.index d = .unread calls lex)
    (hlex : AtLookup cfg lex) :
    Moves cfg s [d] (calls ++ delimiterCalls d (.buffer s.index)) (AtLookup cfg) := by
  obtain ⟨lex', hreact, hlex'⟩ := (hlex.recordMagic d).delimiter (δ := δ) hd s.index
  exact moves_unread h hreact hlex'

lemma moves_integer_end (h : AtInt cfg minus ds s.lex) :
    Moves cfg s [d] ([.tokeni (signed minus (decimal ds)) (.buffer (s.index - 1))] ++
      delimiterCalls d (.buffer s.index) : List (LexerCall δ)) (AtLookup cfg) := by
  obtain ⟨hdigit, hpoint, hletter, -⟩ := delimiter_plain hd
  obtain ⟨lex, hreact, hlex⟩ := (h.recordMagic d).end (δ := δ) hbits hdigit hpoint hletter s.index
  exact moves_delimiter hd hreact hlex

lemma moves_big_end (h : AtBig cfg s.lex) :
    Moves cfg s [d] ([.tokenbnEnd (.buffer (s.index - 1))] ++
      delimiterCalls d (.buffer s.index) : List (LexerCall δ)) (AtLookup cfg) := by
  obtain ⟨-, -, -, hbig⟩ := delimiter_plain hd
  obtain ⟨lex, hreact, hlex⟩ := (h.recordMagic d).end (δ := δ) hbits hbig s.index
  exact moves_delimiter hd hreact hlex

end Delimiters

section Parts

omit hbits in
lemma moves_big (h : AtBig cfg s.lex) (hxs : ∀ b ∈ xs, isBig b = true) :
    Moves cfg s xs (xs.map bignumCall : List (LexerCall δ)) (AtBig cfg) := by
  induction xs generalizing s with
  | nil => exact moves_nil h
  | cons b xs ih =>
    obtain ⟨hb, hxs⟩ := List.forall_mem_cons.mp hxs
    obtain ⟨lex, hreact, hlex⟩ := (h.recordMagic b).pushByte (δ := δ) hb s.index
    exact (moves_one hreact hlex).append fun lex hlex => ih hlex hxs

lemma moves_frac_keeping {F : List UInt8 → Lexer → Prop}
    (hF : ∀ p lex index b, lex.state = .inNumberFrac → isDigit b = true → F p lex →
      (react cfg (recordMagic lex b) index b : Reaction δ).Keeps (F (p ++ [b])))
    (h : AtFrac cfg p s.lex) (hkept : F p s.lex) (hfs : Digits fs) :
    Moves cfg s fs ([] : List (LexerCall δ)) fun lex => AtFrac cfg (p ++ fs) lex ∧ F (p ++ fs) lex := by
  induction fs generalizing p s with
  | nil =>
    rw [List.append_nil]
    exact moves_nil ⟨h, hkept⟩
  | cons b fs ih =>
    obtain ⟨hb, hfs⟩ := List.forall_mem_cons.mp hfs
    obtain ⟨lex, hreact, hlex⟩ := (h.recordMagic b).pushDigit (δ := δ) hbits hb s.index
    have hnext := hF p s.lex s.index b h.state hb hkept
    rw [hreact] at hnext
    have hone : Moves (δ := δ) cfg s [b] [] fun lex => AtFrac cfg (p ++ [b]) lex ∧ F (p ++ [b]) lex :=
      moves_one hreact ⟨hlex, hnext⟩
    rw [List.append_cons]
    exact hone.append fun lex hlex => ih hlex.1 hlex.2 hfs

lemma moves_frac (h : AtFrac cfg p s.lex) (hfs : Digits fs) :
    Moves cfg s fs ([] : List (LexerCall δ)) (AtFrac cfg (p ++ fs)) := by
  obtain ⟨lex, hrun, hlex, -⟩ := moves_frac_keeping (δ := δ) (F := fun _ _ => True) hbits
    (fun p lex index b _ _ _ => Reaction.keeps_true _) h trivial hfs
  exact ⟨lex, hrun, hlex⟩

lemma moves_exp_keeping {F : Lexer → Prop}
    (hF : ∀ lex index b, lex.state = .inNumberExp → isDigit b = true → F lex →
      (react cfg (recordMagic lex b) index b : Reaction δ).Keeps F)
    (h : AtExp cfg negative p s.lex) (hkept : F s.lex) (hp : Digits p) (hes : Digits es)
    (hlimit : decimal (p ++ es) ≤ expLimit negative) :
    Moves cfg s es ([] : List (LexerCall δ)) fun lex => AtExp cfg negative (p ++ es) lex ∧ F lex := by
  induction es generalizing p s with
  | nil =>
    rw [List.append_nil]
    exact moves_nil ⟨h, hkept⟩
  | cons b es ih =>
    obtain ⟨hb, hes⟩ := List.forall_mem_cons.mp hes
    have hpb : Digits (p ++ [b]) := digits_append.mpr ⟨hp, digits_singleton.mpr hb⟩
    rw [List.append_cons] at hlimit ⊢
    obtain ⟨lex, hreact, hlex⟩ := (h.recordMagic b).pushDigit (δ := δ) hbits hb
      ((decimal_append_le hpb hes).trans hlimit) s.index
    have hnext := hF s.lex s.index b h.state hb hkept
    rw [hreact] at hnext
    have hone : Moves (δ := δ) cfg s [b] [] fun lex => AtExp cfg negative (p ++ [b]) lex ∧ F lex :=
      moves_one hreact ⟨hlex, hnext⟩
    exact hone.append fun lex hlex => ih hlex.1 hlex.2 hpb hes hlimit

lemma rejects_exp (h : AtExp cfg negative p s.lex) (hp : Digits p) (hes : Digits es)
    (hfits : decimal p ≤ expLimit negative) (hlimit : expLimit negative < decimal (p ++ es)) :
    Rejects cfg s es ([] : List (LexerCall δ)) .exponentOverflow := by
  induction es generalizing p s with
  | nil =>
    rw [List.append_nil] at hlimit
    omega
  | cons b es ih =>
    obtain ⟨hb, hes⟩ := List.forall_mem_cons.mp hes
    have hpb : Digits (p ++ [b]) := digits_append.mpr ⟨hp, digits_singleton.mpr hb⟩
    rw [List.append_cons] at hlimit
    by_cases hnext : decimal (p ++ [b]) ≤ expLimit negative
    · obtain ⟨lex, hreact, hlex⟩ := (h.recordMagic b).pushDigit (δ := δ) hbits hb hnext s.index
      exact (moves_one hreact hlex).rejects fun lex hlex => ih hlex hpb hes hnext hlimit
    · exact rejects_cons ((h.recordMagic b).overflow hb (by omega) s.index) es

end Parts

end Embedjson
