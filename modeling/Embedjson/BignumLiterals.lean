import Embedjson.IntegerRange

namespace Embedjson

open Foundations Foundations.Program

variable {δ : Type} [DoubleArith δ] {cfg : Config} {lexer : Lexer} {minus : Bool}
  {ds rest bytes : List UInt8} {d : UInt8} {chunks : List (List UInt8)}

def spelled (v : ℤ) : List UInt8 :=
  minusText (decide (v < 0)) ++ (Nat.toDigits 10 v.natAbs).map Char.toUInt8

lemma length_spelled_decimal (hds : Digits ds) (hne : ds ≠ []) :
    (spelled (decimal ds)).length ≤ ds.length := by
  have hvalue := decimal_nonneg hds
  have hlt := decimal_lt hds
  have hpos : ¬decimal ds < 0 := by omega
  have hdigits : (Nat.toDigits 10 (decimal ds).natAbs).length ≤ ds.length := by
    refine (Nat.length_toDigits_le_iff (by decide) (List.length_pos_iff.mpr hne)).mpr ?_
    zify
    rwa [abs_of_nonneg hvalue]
  rw [spelled, decide_eq_false hpos, List.length_append, List.length_map]
  exact (Nat.zero_add _).trans_le hdigits

omit [DoubleArith δ] in
lemma bytes_of_bignumCalls {bytes' : List UInt8} {p q : Pointer} {l m : List (LexerCall δ)}
    (h : bytes.map bignumCall ++ .tokenbnEnd p :: l = bytes'.map bignumCall ++ .tokenbnEnd q :: m) :
    bytes = bytes' := by
  induction bytes generalizing bytes' with
  | nil =>
    cases bytes' with
    | nil => rfl
    | cons b bytes' => cases h
  | cons b bytes ih =>
    cases bytes' with
    | nil => cases h
    | cons b' bytes' =>
      obtain ⟨hb, hrest⟩ := List.cons.inj h
      cases hb
      rw [ih hrest]

/-- A digit is lost in every integer that is handed over as a big number. -/
theorem bignum_loses_digit (hbits : 8 ≤ cfg.intBits) {before : List (List UInt8)}
    {l : List (LexerCall δ)}
    (hpush : observe LexerCall.isError (lexerPushAll cfg .zero before) = (l, some (0, lexer)))
    (hs : lexer.state = .lookupToken) (hint : IsInt ds) (hd : d ∈ delimiters)
    (hchunks : chunks.flatten = minusText minus ++ ds ++ d :: rest) {p q : Pointer} {v : ℤ}
    {more : List (LexerCall δ)}
    (htrace : trace cfg lexer 0 chunks =
      .tokenbnBegin p v :: bytes.map bignumCall ++ .tokenbnEnd q :: more) :
    spelled v ++ bytes ≠ minusText minus ++ ds := by
  have h := atLookup_of_push hbits hpush hs
  have hfits : ¬FitsInt cfg ds := by
    intro hfits
    obtain ⟨more', haccept⟩ := trace_integer (δ := δ) 0 hbits h hint hd hchunks hfits
    rw [haccept] at htrace
    cases htrace
  have hbignum : cfg.bignum = true := by
    by_contra hno
    obtain ⟨position, hoverflow⟩ := trace_overflow (δ := δ) 0 hbits h hint hchunks hno hfits
    rw [hoverflow] at htrace
    cases htrace
  obtain ⟨p', b, q', more', rfl, hp, hbig⟩ :=
    trace_bignum (δ := δ) 0 hbits h hint hd hchunks hbignum hfits
  rw [htrace] at hbig
  obtain ⟨hbegin, hrest⟩ := List.cons.inj hbig
  cases hbegin
  obtain rfl := bytes_of_bignumCalls hrest
  -- the digit `b` is in neither part
  have hspelled := length_spelled_decimal (digits_append.mp hint.digits).1 hp
  intro heq
  have hlength := congrArg List.length heq
  simp only [List.length_append, List.length_cons] at hlength
  omega

def bignumConfig : Config := { Config.default with bignum := true }

def twentyDigits : List UInt8 := "12345678901234567890".toList.map Char.toUInt8

lemma isInt_twentyDigits : IsInt twentyDigits :=
  ⟨List.all_eq_true.mp (by decide : twentyDigits.all isDigit = true), by decide, by decide⟩

lemma trace_twentyDigits : trace (δ := ℚ) bignumConfig .zero 0 [twentyDigits ++ [' '.toUInt8]] =
    [.tokenbnBegin (.buffer 19) 1234567890123456789, .tokenbnEnd (.buffer 19)] := by
  decide +kernel

/-- The last of twenty digits begins the big number and is not handed over. -/
theorem twentyDigits_lossy :
    IsInt twentyDigits ∧ trace (δ := ℚ) bignumConfig .zero 0 [twentyDigits ++ [' '.toUInt8]] =
      .tokenbnBegin (.buffer 19) 1234567890123456789 :: [].map bignumCall ++
        .tokenbnEnd (.buffer 19) :: [] ∧
      spelled 1234567890123456789 ++ [] ≠ twentyDigits :=
  ⟨isInt_twentyDigits, trace_twentyDigits, by decide⟩

theorem bignum_loses_digit_twentyDigits :
    spelled 1234567890123456789 ++ [] ≠ minusText false ++ twentyDigits := by
  have hbits : 8 ≤ bignumConfig.intBits := by decide
  have hpush : observe LexerCall.isError (lexerPushAll (δ := ℚ) bignumConfig .zero []) =
      ([], some (0, .zero)) := rfl
  have hd : ' '.toUInt8 ∈ delimiters := by decide
  have hchunks : [twentyDigits ++ [' '.toUInt8]].flatten =
      minusText false ++ twentyDigits ++ ' '.toUInt8 :: [] := rfl
  exact bignum_loses_digit hbits hpush rfl isInt_twentyDigits hd hchunks trace_twentyDigits

end Embedjson
