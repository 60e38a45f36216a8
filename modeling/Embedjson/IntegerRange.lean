import Embedjson.Lexer.NumberRuns

namespace Embedjson

open Foundations Foundations.Program

variable {δ : Type} [DoubleArith δ] {cfg : Config} {lexer : Lexer} {minus : Bool}
  {ds rest : List UInt8} {d : UInt8} {chunks : List (List UInt8)}

def AcceptsInt (δ : Type) [DoubleArith δ] (cfg : Config) (lexer : Lexer) (chunks : List (List UInt8))
    (v : ℤ) : Prop :=
  ∃ position more, trace (δ := δ) cfg lexer 0 chunks = .tokeni v position :: more

/-- The first call is the error of an overflow, or the beginning of a big number. -/
def Overflows (δ : Type) [DoubleArith δ] (cfg : Config) (lexer : Lexer) (chunks : List (List UInt8)) :
    Prop :=
  (∃ position, trace (δ := δ) cfg lexer 0 chunks = [.errorEx .intOverflow position]) ∨
    ∃ position v more, trace (δ := δ) cfg lexer 0 chunks = .tokenbnBegin position v :: more

section Traces

variable {base : ℤ} {xs : List UInt8} {P : Lexer → Prop}

lemma Moves.trace {l m : List (LexerCall δ)} {f : LexerCall δ} (hf : f.isChunk = false)
    (h : Moves cfg ⟨lexer, base⟩ xs (l ++ f :: m) P) (hchunks : chunks.flatten = xs ++ rest) :
    ∃ more, trace cfg lexer base chunks = l ++ f :: more := by
  obtain ⟨lex, hrun, -⟩ := h
  apply trace_begins hf
  rw [hchunks, Transducer.run_append_ok _ hrun, List.append_assoc, List.cons_append]

lemma Rejects.trace {code : ErrorCode}
    (h : Rejects cfg ⟨lexer, base⟩ chunks.flatten ([] : List (LexerCall δ)) code) :
    ∃ position, trace (δ := δ) cfg lexer base chunks = [.errorEx code position] := by
  have htraces := trace_scanner (δ := δ) cfg lexer base chunks
  rw [Rejects] at h
  rw [h] at htraces
  obtain ⟨calls, pending, position, heq, hcalls, -⟩ := htraces.error code rfl
  obtain ⟨rfl, -⟩ := List.append_eq_nil_iff.mp hcalls
  exact ⟨position, heq⟩

variable (base) (hbits : 8 ≤ cfg.intBits) (h : AtLookup cfg lexer) (hint : IsInt ds)
  (hd : d ∈ delimiters) (hchunks : chunks.flatten = minusText minus ++ ds ++ d :: rest)

include hbits h hint hchunks

include hd in
lemma trace_integer (hfits : FitsInt cfg ds) : ∃ more,
    trace (δ := δ) cfg lexer base chunks = .tokeni (signed minus (decimal ds))
      (.buffer (base + (minusText minus ++ ds).length - 1)) :: more := by
  have hmoves : Moves (δ := δ) cfg ⟨lexer, base⟩ (minusText minus ++ ds ++ [d])
      ([] ++ .tokeni (signed minus (decimal ds)) (.buffer (base + (minusText minus ++ ds).length - 1)) ::
        delimiterCalls d (.buffer (base + (minusText minus ++ ds).length))) (AtLookup cfg) :=
    (moves_integer hbits h hint hfits minus).append fun lex hlex => moves_integer_end hbits hd hlex
  exact hmoves.trace rfl (by rw [hchunks, List.append_assoc _ [d]]; rfl)

include hd in
lemma trace_bignum (hbignum : cfg.bignum = true) (hfits : ¬FitsInt cfg ds) : ∃ p b q more,
    ds = p ++ b :: q ∧ p ≠ [] ∧ trace (δ := δ) cfg lexer base chunks =
      .tokenbnBegin (.buffer (base + (minusText minus ++ p).length)) (decimal p) ::
        q.map bignumCall ++
        .tokenbnEnd (.buffer (base + (minusText minus ++ ds).length - 1)) :: more := by
  obtain ⟨p, b, q, rfl, hp, hfit, hnot⟩ := exists_longest_fit hbits hint.digits hint.ne_nil hfits
  have htext : minusText minus ++ (p ++ b :: q) = minusText minus ++ p ++ [b] ++ q := by simp
  rw [htext] at hchunks ⊢
  have hbig : ∀ c ∈ q, isBig c = true := fun c hc =>
    isBig_of_digit (hint.digits c (by simp [hc]))
  have hswitch : Moves (δ := δ) cfg ⟨lexer, base⟩ (minusText minus ++ p ++ [b])
      [.tokenbnBegin (.buffer (base + (minusText minus ++ p).length)) (decimal p)] (AtBig cfg) :=
    (moves_integer hbits h (hint.of_append hp) hfit minus).append fun lex hlex =>
      moves_switch hbits hbignum hlex hint hp hnot
  have hmoves : Moves (δ := δ) cfg ⟨lexer, base⟩ (minusText minus ++ p ++ [b] ++ q ++ [d])
      (.tokenbnBegin (.buffer (base + (minusText minus ++ p).length)) (decimal p) ::
        q.map bignumCall ++
        .tokenbnEnd (.buffer (base + (minusText minus ++ p ++ [b] ++ q).length - 1)) ::
          delimiterCalls d (.buffer (base + (minusText minus ++ p ++ [b] ++ q).length)))
      (AtLookup cfg) :=
    (hswitch.append fun lex hlex => moves_big hlex hbig).append fun lex hlex =>
      moves_big_end hbits hd hlex
  obtain ⟨more, hmore⟩ := hmoves.trace rfl (by rw [hchunks, List.append_assoc _ [d]]; rfl)
  exact ⟨p, b, q, more, rfl, hp, hmore⟩

lemma trace_overflow (hbignum : ¬cfg.bignum = true) (hfits : ¬FitsInt cfg ds) : ∃ position,
    trace (δ := δ) cfg lexer base chunks = [.errorEx .intOverflow position] := by
  obtain ⟨p, b, q, rfl, hp, hfit, hnot⟩ := exists_longest_fit hbits hint.digits hint.ne_nil hfits
  apply Rejects.trace
  have htext : chunks.flatten = minusText minus ++ p ++ b :: (q ++ d :: rest) := by simp [hchunks]
  rw [htext]
  exact (moves_integer hbits h (hint.of_append hp) hfit minus).rejects fun lex hlex =>
    rejects_switch hbits hbignum hlex hint hp hnot _

end Traces

theorem integer_accepted_iff (hbits : 8 ≤ cfg.intBits) {before : List (List UInt8)}
    {l : List (LexerCall δ)}
    (hpush : observe LexerCall.isError (lexerPushAll cfg .zero before) = (l, some (0, lexer)))
    (hs : lexer.state = .lookupToken) (hint : IsInt ds) (hd : d ∈ delimiters)
    (hchunks : chunks.flatten = minusText minus ++ ds ++ d :: rest) :
    ((decimal ds ≤ cfg.intMax → AcceptsInt δ cfg lexer chunks (signed minus (decimal ds))) ∧
      (Overflows δ cfg lexer chunks → cfg.intMax < decimal ds)) ↔
      decimal ds / 10 + decimal ds % 10 ≤ cfg.intMax / 10 ∨ cfg.intMax < decimal ds := by
  have h := atLookup_of_push hbits hpush hs
  change _ ↔ FitsInt cfg ds ∨ _
  constructor
  · rintro ⟨-, hover⟩
    by_contra! hnot
    obtain ⟨hfits, hrange⟩ := hnot
    refine hrange.not_gt (hover ?_)
    by_cases hbignum : cfg.bignum = true
    · obtain ⟨p, b, q, more, -, -, htrace⟩ :=
        trace_bignum (δ := δ) 0 hbits h hint hd hchunks hbignum hfits
      exact .inr ⟨_, _, _, htrace⟩
    · exact .inl (trace_overflow 0 hbits h hint hchunks hbignum hfits)
  · rintro (hfits | hlarge)
    · obtain ⟨more, htrace⟩ := trace_integer (δ := δ) 0 hbits h hint hd hchunks hfits
      refine ⟨fun _ => ⟨_, more, htrace⟩, ?_⟩
      rintro (⟨position, hoverflow⟩ | ⟨position, v, more', hbig⟩)
      · rw [htrace] at hoverflow
        cases hoverflow
      · rw [htrace] at hbig
        cases hbig
    · exact ⟨fun hrange => absurd hrange hlarge.not_ge, fun _ => hlarge⟩

def greatest : List UInt8 := "9223372036854775807".toList.map Char.toUInt8

theorem greatest_refused :
    IsInt greatest ∧ decimal greatest = Config.default.intMax ∧
      ¬AcceptsInt ℚ .default .zero [greatest ++ [' '.toUInt8]] (decimal greatest) ∧
      Overflows ℚ .default .zero [greatest ++ [' '.toUInt8]] := by
  have htrace : trace (δ := ℚ) .default .zero 0 [greatest ++ [' '.toUInt8]] =
      [.errorEx .intOverflow (.buffer 18)] := by decide +kernel
  refine ⟨⟨?_, by decide, by decide⟩, by decide, ?_, .inl ⟨_, htrace⟩⟩
  · exact List.all_eq_true.mp (by decide : greatest.all isDigit = true)
  · rintro ⟨position, more, h⟩
    rw [htrace] at h
    cases h

/-- With a last digit of nine this integer is the greatest one that passes the guard. -/
def highestNine : List UInt8 := "9223372036854775719".toList.map Char.toUInt8

theorem integer_accepted_iff_highestNine :
    AcceptsInt ℚ .default .zero [['-'.toUInt8], highestNine ++ [','.toUInt8]]
      (-9223372036854775719) := by
  have hbits : 8 ≤ Config.default.intBits := by decide
  have hpush : observe LexerCall.isError (lexerPushAll (δ := ℚ) .default .zero []) =
      ([], some (0, .zero)) := rfl
  have hint : IsInt highestNine :=
    ⟨List.all_eq_true.mp (by decide : highestNine.all isDigit = true), by decide, by decide⟩
  have hd : ','.toUInt8 ∈ delimiters := by decide
  have hchunks : [['-'.toUInt8], highestNine ++ [','.toUInt8]].flatten =
      minusText true ++ highestNine ++ ','.toUInt8 :: [] := rfl
  have hvalue : signed true (decimal highestNine) = -9223372036854775719 := by decide
  rw [← hvalue]
  exact ((integer_accepted_iff hbits hpush rfl hint hd hchunks).mpr (.inl (by decide))).1 (by decide)

end Embedjson
