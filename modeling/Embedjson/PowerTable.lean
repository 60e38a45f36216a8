import Embedjson.Lexer.NumberSpelling

namespace Embedjson

open Foundations Foundations.Program

/-- The arguments of the calls of `powm10` that a double was computed from. -/
abbrev Powers := Multiset ℤ

instance : DoubleArith Powers where
  ofInt _ := 0
  add x y := x + y
  sub x y := x + y
  mul x y := x + y
  powm10 n := {n}
  add_comm := add_comm

/-- The table has 632 entries, and `n` is looked up at `n + 308`. -/
def InTable (n : ℤ) : Prop := 0 ≤ n + 308 ∧ n + 308 < 632

instance (n : ℤ) : Decidable (InTable n) := inferInstanceAs (Decidable (_ ∧ _))

def LexerCall.InTable : LexerCall Powers → Prop
  | tokenf powers _ => ∀ n ∈ powers, Embedjson.InTable n
  | _ => True

/-- A floating-point number ends before `rest`, which is empty at the end of the input. -/
def FloatEnds (lexer : Lexer) : List UInt8 → Prop
  | [] => lexer.state = .inNumberFrac ∨ lexer.state = .inNumberExp
  | b :: _ => isDigit b = false ∧
      (lexer.state = .inNumberFrac ∧ b ≠ 'e'.toUInt8 ∧ b ≠ 'E'.toUInt8 ∨
        lexer.state = .inNumberExp ∧ lexer.expNotEmpty = true)

/-- A floating-point number with the digits `fs` in its fraction is spelled `text` and ends before
`rest`. The end of the input also ends an exponent that consists of a sign. -/
inductive FloatText : List UInt8 → List UInt8 → List UInt8 → Prop
  | frac {minus : Bool} {ds fs rest : List UInt8} (hint : IsInt ds) (hfs : Digits fs)
      (hend : ∀ b ∈ rest.head?, isDigit b = false ∧ b ≠ 'e'.toUInt8 ∧ b ≠ 'E'.toUInt8) :
      FloatText fs (minusText minus ++ ds ++ '.'.toUInt8 :: fs) rest
  | exp (m : Mantissa) (e : Exponent) {rest : List UInt8} (hend : ∀ b ∈ rest.head?, isDigit b = false) :
      FloatText (m.frac.getD []) (m.text ++ e.text) rest
  | sign (m : Mantissa) {letter sign : UInt8} (hletter : letter = 'e'.toUInt8 ∨ letter = 'E'.toUInt8)
      (hsign : sign = '+'.toUInt8 ∨ sign = '-'.toUInt8) :
      FloatText (m.frac.getD []) (m.text ++ [letter, sign]) []

variable {cfg : Config} {lex : Lexer} {b : UInt8}

section Values

lemma fracDouble_powers : (fracDouble lex : Powers) = {(lex.fracPower : ℤ)} := by
  change (0 : Powers) + (0 + {(lex.fracPower : ℤ)}) = _
  rw [zero_add, zero_add]

lemma finalDouble_powers : (finalDouble lex : Powers) = {(lex.fracPower : ℤ)} := by
  change ((0 : Powers) + {(lex.fracPower : ℤ)}) + 0 = _
  rw [zero_add, add_zero]

lemma negateIf_powers (minus : Bool) (powers : Powers) : negateIf minus powers = powers := by
  cases minus with
  | false => rfl
  | true => exact zero_add powers

lemma frac_inTable_iff : (∀ n ∈ ({(lex.fracPower : ℤ)} : Powers), InTable n) ↔ lex.fracPower ≤ 323 := by
  simp only [Multiset.mem_singleton, forall_eq, InTable]
  omega

lemma exp_inTable_iff (h : lex.expValue ≤ expLimit lex.expMinus) :
    (∀ n ∈ scaleByExp lex ({(lex.fracPower : ℤ)} : Powers), InTable n) ↔ lex.fracPower ≤ 323 := by
  change (∀ n ∈ ({(lex.fracPower : ℤ)} : Powers) +
    {if lex.expMinus then (lex.expValue : ℤ) else 0 - lex.expValue}, InTable n) ↔ _
  rw [expLimit] at h
  have hexp : InTable (if lex.expMinus then (lex.expValue : ℤ) else 0 - lex.expValue) := by
    rw [InTable]
    split_ifs at h ⊢ <;> omega
  simp only [Multiset.mem_add, Multiset.mem_singleton, or_imp, forall_and, forall_eq, hexp, and_true]
  rw [InTable]
  omega

end Values

section Steps

variable (cfg) in
lemma react_inTable (hfrac : lex.state ≠ .inNumberFrac) (hexp : lex.state ≠ .inNumberExp)
    (index : ℤ) (b : UInt8) : (react cfg lex index b).Makes LexerCall.InTable := by
  by_cases hs : lex.state = .inNumber
  · rw [react, hs]
    refine .ite (fun _ => .ite (fun _ => trivial) fun _ => .ite (fun _ => .ite (fun _ => ?_)
      fun _ => trivial) fun _ => Reaction.makes_none _) fun _ => ?_
    · exact Reaction.makes_one trivial _
    · exact .ite (fun _ => Reaction.makes_none _) fun _ => .ite (fun _ => Reaction.makes_none _)
        fun _ => List.forall_mem_singleton.mpr trivial
  · refine (react_plain cfg hs hfrac hexp index b).mono fun f hf => ?_
    cases f with
    | tokenf powers position => cases hf
    | _ => trivial

variable {s : Scan}

lemma scanStep_inTable_of_react {b : UInt8}
    (h : (react cfg (recordMagic s.lex b) s.index b).Makes LexerCall.InTable) :
    ∀ f ∈ (scanStep cfg s b).1, f.InTable := by
  rw [scanStep]
  cases hr : (react cfg (recordMagic s.lex b) s.index b : Reaction Powers) with
  | consume calls lex =>
    rw [hr] at h
    exact h
  | reject code => exact List.forall_mem_nil _
  | unread calls lex =>
    rw [hr] at h
    have hstate : (recordMagic lex b).state = .lookupToken := by
      rw [recordMagic_state, react_unread_state hr]
    have h' : (react cfg (recordMagic lex b) s.index b).Makes LexerCall.InTable :=
      react_inTable cfg (by rw [hstate]; decide) (by rw [hstate]; decide) s.index b
    dsimp only
    cases hr' : (react cfg (recordMagic lex b) s.index b : Reaction Powers) with
    | consume calls' lex' | unread calls' lex' =>
      rw [hr'] at h'
      exact List.forall_mem_append.mpr ⟨h, h'⟩
    | reject code => exact h

lemma scanStep_inTable_of_unread {b : UInt8} {f : LexerCall Powers} {lex : Lexer}
    (h : react cfg (recordMagic s.lex b) s.index b = .unread [f] lex) :
    (∀ g ∈ (scanStep cfg s b).1, g.InTable) ↔ f.InTable := by
  constructor
  · intro hall
    apply hall
    simp only [scanStep, h]
    cases (react cfg (recordMagic lex b) s.index b : Reaction Powers) <;> simp
  · intro hf
    apply scanStep_inTable_of_react
    rw [h]
    exact List.forall_mem_singleton.mpr hf

lemma scanStep_inTable_iff_of_react {b : UInt8} {P : Prop}
    (h : (react cfg (recordMagic s.lex b) s.index b : Reaction Powers).Makes LexerCall.InTable)
    (hP : P) : (∀ f ∈ (scanStep (δ := Powers) cfg s b).1, f.InTable) ↔ P :=
  iff_of_true (scanStep_inTable_of_react h) hP

lemma scanStep_frac_inTable_iff (hfrac : s.lex.state = .inNumberFrac) (b : UInt8)
    (rest : List UInt8) : (∀ f ∈ (scanStep cfg s b).1, f.InTable) ↔
      (FloatEnds s.lex (b :: rest) → s.lex.fracPower ≤ 323) := by
  have hreact : (react cfg (recordMagic s.lex b) s.index b : Reaction Powers) =
      Reaction.ofFrac (recordMagic s.lex b) (.buffer (s.index - 1)) b := by
    rw [react, recordMagic_state, hfrac]
  by_cases hb : isDigit b = true
  · refine scanStep_inTable_iff_of_react ?_ fun hends => absurd hb (by simp [hends.1])
    rw [hreact, Reaction.ofFrac, if_pos hb]
    exact Reaction.makes_none _
  by_cases he : b = 'e'.toUInt8 ∨ b = 'E'.toUInt8
  · refine scanStep_inTable_iff_of_react ?_ fun hends => ?_
    · rw [hreact, Reaction.ofFrac, if_neg hb, if_pos he]
      exact .ite (fun _ => trivial) fun _ => Reaction.makes_none _
    · rcases hends.2 with ⟨-, hne, hne'⟩ | ⟨hexp, -⟩
      · exact (he.elim hne hne').elim
      · rw [hfrac] at hexp
        cases hexp
  by_cases hp : s.lex.fracPower = 0
  · refine scanStep_inTable_iff_of_react ?_ fun _ => by omega
    rw [hreact, Reaction.ofFrac, if_neg hb, if_neg he, if_pos (by rwa [recordMagic_fracPower])]
    trivial
  · rw [Reaction.ofFrac, if_neg hb, if_neg he, if_neg (by rwa [recordMagic_fracPower])] at hreact
    rw [scanStep_inTable_of_unread hreact, LexerCall.InTable, negateIf_powers, fracDouble_powers,
      frac_inTable_iff, recordMagic_fracPower]
    exact ⟨fun h _ => h, fun h => h ⟨by simpa using hb, .inl ⟨hfrac, not_or.mp he⟩⟩⟩

lemma scanStep_exp_inTable_iff (htidy : Tidy cfg s.lex) (hexp : s.lex.state = .inNumberExp)
    (b : UInt8) (rest : List UInt8) : (∀ f ∈ (scanStep cfg s b).1, f.InTable) ↔
      (FloatEnds s.lex (b :: rest) → s.lex.fracPower ≤ 323) := by
  have hreact : (react cfg (recordMagic s.lex b) s.index b : Reaction Powers) =
      Reaction.ofExp (recordMagic s.lex b) (.buffer (s.index - 1)) b := by
    rw [react, recordMagic_state, hexp]
  by_cases hb : isDigit b = true
  · refine scanStep_inTable_iff_of_react ?_ fun hends => absurd hb (by simp [hends.1])
    rw [hreact, Reaction.ofExp, if_pos hb]
    exact .ite (fun _ => trivial) fun _ => Reaction.makes_none _
  by_cases hempty : s.lex.expNotEmpty = true
  · have hlimit : (recordMagic s.lex b).expValue ≤ expLimit (recordMagic s.lex b).expMinus := by
      simp only [Tidy, hexp] at htidy
      rw [recordMagic_expValue, recordMagic_expMinus]
      exact htidy.2
    rw [Reaction.ofExp, if_neg hb, if_neg (by simp [hempty])] at hreact
    rw [scanStep_inTable_of_unread hreact, LexerCall.InTable, negateIf_powers, fracDouble_powers,
      exp_inTable_iff hlimit, recordMagic_fracPower]
    exact ⟨fun h _ => h, fun h => h ⟨by simpa using hb, .inr ⟨hexp, hempty⟩⟩⟩
  · refine scanStep_inTable_iff_of_react ?_ fun hends => ?_
    · rw [hreact, Reaction.ofExp, if_neg hb, if_pos (by simpa using hempty)]
      trivial
    · rcases hends.2 with ⟨hfrac, -⟩ | ⟨-, hne⟩
      · rw [hexp] at hfrac
        cases hfrac
      · exact absurd hne hempty

lemma scanStep_inTable_iff (htidy : Tidy cfg s.lex) (b : UInt8) (rest : List UInt8) :
    (∀ f ∈ (scanStep cfg s b).1, f.InTable) ↔
      (FloatEnds s.lex (b :: rest) → s.lex.fracPower ≤ 323) := by
  by_cases hfrac : s.lex.state = .inNumberFrac
  · exact scanStep_frac_inTable_iff hfrac b rest
  by_cases hexp : s.lex.state = .inNumberExp
  · exact scanStep_exp_inTable_iff htidy hexp b rest
  refine scanStep_inTable_iff_of_react ?_ fun hends => ?_
  · exact react_inTable cfg (by rwa [recordMagic_state]) (by rwa [recordMagic_state]) _ _
  · rcases hends.2 with ⟨hstate, -⟩ | ⟨hstate, -⟩
    · exact absurd hstate hfrac
    · exact absurd hstate hexp

lemma finalize_inTable_iff (htidy : Tidy cfg lex) :
    (∀ f ∈ (observe LexerCall.isError (embedjsonLexerFinalize (δ := Powers) cfg lex)).1, f.InTable) ↔
      (FloatEnds lex [] → lex.fracPower ≤ 323) := by
  rw [embedjsonLexerFinalize, FloatEnds]
  cases hs : lex.state with
  | inNumberFrac =>
    change (∀ f ∈ [LexerCall.tokenf (negateIf lex.minus (finalDouble lex)) .null], f.InTable) ↔ _
    rw [List.forall_mem_singleton, LexerCall.InTable, negateIf_powers, finalDouble_powers,
      frac_inTable_iff]
    exact ⟨fun h _ => h, fun h => h (.inl rfl)⟩
  | inNumberExp =>
    change (∀ f ∈ [LexerCall.tokenf (negateIf lex.minus (scaleByExp lex (finalDouble lex))) .null],
      f.InTable) ↔ _
    simp only [Tidy, hs] at htidy
    rw [List.forall_mem_singleton, LexerCall.InTable, negateIf_powers, finalDouble_powers,
      exp_inTable_iff htidy.2]
    exact ⟨fun h _ => h, fun h => h (.inr rfl)⟩
  | lookupToken => exact iff_of_true (List.forall_mem_nil _) (by simp)
  | _ => exact iff_of_true (List.forall_mem_singleton.mpr trivial) (by simp)

end Steps

/-- All lookups in the pushes of some chunks, up to the first error, and at the end of the input. -/
def LooksUpInTable (cfg : Config) (chunks : List (List UInt8)) : Prop :=
  (∀ f ∈ trace (δ := Powers) cfg .zero 0 chunks, f.InTable) ∧
    ∀ lexer, Meets Powers cfg chunks.flatten lexer [] →
      ∀ f ∈ (observe LexerCall.isError (embedjsonLexerFinalize (δ := Powers) cfg lexer)).1, f.InTable

section Lookups

variable (hbits : 8 ≤ cfg.intBits)

include hbits

lemma looksUpInTable_iff (chunks : List (List UInt8)) : LooksUpInTable cfg chunks ↔
      ∀ lexer rest, Meets Powers cfg chunks.flatten lexer rest → FloatEnds lexer rest →
        lexer.fracPower ≤ 323 := by
  have hkind (f : LexerCall Powers) : f.InTable ∨ f.isChunk = false ∧ f.isError = false := by
    cases f with
    | tokenf powers position => exact .inr ⟨rfl, rfl⟩
    | _ => exact .inl trivial
  constructor
  · rintro ⟨htrace, hend⟩ lexer rest hmeets hends
    have htidy := hmeets.tidy hbits
    cases rest with
    | nil => exact (finalize_inTable_iff htidy).mp (hend lexer hmeets) hends
    | cons b rest =>
      obtain ⟨start, calls, index, hinput, hrun⟩ := meets_iff.mp hmeets
      have htidy' : Tidy cfg (Scan.mk lexer index).lex := htidy
      refine (scanStep_inTable_iff htidy' b rest).mp (fun f hf => ?_) hends
      refine (hkind f).elim id fun ⟨hchunk, herror⟩ => htrace f ((mem_trace_iff hchunk herror).mpr ?_)
      rw [← hinput, Transducer.run_append_ok _ hrun]
      exact List.mem_append_right _ ((scanner cfg).mem_run_cons hf)
  · intro h
    refine ⟨fun f hf => ?_, fun lexer hmeets => ?_⟩
    · refine (hkind f).elim id fun ⟨hchunk, herror⟩ => ?_
      obtain ⟨l, m, hl⟩ := List.append_of_mem ((mem_trace_iff hchunk herror).mp hf)
      obtain ⟨start, b, rest, ps, t, qs, rs, hinput, hrun, hstep, -, -⟩ :=
        Transducer.run_split_output _ hl
      have hmeets : Meets Powers cfg chunks.flatten t.lex (b :: rest) :=
        meets_iff.mpr ⟨start, ps, t.index, hinput.symm, hrun⟩
      refine (scanStep_inTable_iff (hmeets.tidy hbits) b rest).mpr (h t.lex _ hmeets) f ?_
      exact hstep ▸ List.mem_append_right _ (List.mem_cons_self ..)
    · exact (finalize_inTable_iff (hmeets.tidy hbits)).mpr (h lexer [] hmeets)

variable {start text rest fs : List UInt8} {lexer : Lexer}

lemma FloatText.moves {s : Scan} (h : FloatText fs text rest) (hs : AtLookup cfg s.lex)
    (hin : ∀ p, p ≠ [] → p <+: text → ∃ calls t,
      (scanner (δ := Powers) cfg).run s p = (calls, .ok t) ∧ InNumber t.lex) :
    Moves cfg s text ([] : List (LexerCall Powers)) fun lex =>
      FloatEnds lex rest ∧ lex.fracPower = fs.length % 2 ^ 16 := by
  cases h with
  | @frac minus ds _ _ hint hfs hend =>
    have hfits := fitsInt_of_read hbits hs hin hint (List.prefix_append _ _)
    obtain ⟨lex, hrun, hlex, hfields⟩ := moves_fraction (δ := Powers) hbits hs minus hint hfits hfs
    refine ⟨lex, hrun, ?_, hfields.power⟩
    cases rest with
    | nil => exact .inl hlex.state
    | cons b rest =>
      obtain ⟨hdigit, hletter⟩ := hend b rfl
      exact ⟨hdigit, .inl ⟨hlex.state, hletter⟩⟩
  | exp m e hend =>
    obtain ⟨hfits, hfrac, hlimit⟩ := bounded_of_read hbits hs hin m e List.prefix_rfl
    have hn : Numeral.Readable cfg ⟨m, some e⟩ := ⟨hfits, hfrac, by simpa using hlimit⟩
    obtain ⟨lex, hrun, hlex, hfields⟩ := moves_behind (δ := Powers) hbits hs hn
    simp only [Option.elim_some] at hlex
    refine ⟨lex, hrun, ?_, hfields.power⟩
    cases rest with
    | nil => exact .inr hlex.state
    | cons b rest => exact ⟨hend b rfl, .inr ⟨hlex.state, hlex.notEmpty.mpr e.isDigits.2⟩⟩
  | @sign m letter sign hletter hsign =>
    have hfits := fits_mantissa hbits hs hin m (List.prefix_append _ _)
    have hfrac := frac_of_read hbits hs hin m hletter ⟨[sign], by simp⟩
    obtain ⟨lex, hrun, hlex, hfields⟩ :=
      moves_exp_sign (δ := Powers) hbits hs m hfits hfrac hletter hsign
    exact ⟨lex, hrun, .inr hlex.state, hfields.power⟩

omit hbits in
lemma FloatText.ne_nil (h : FloatText fs text rest) : text ≠ [] := by
  cases h <;> simp [Exponent.text]

omit hbits in
lemma Consumes.meets (hread : Consumes Powers cfg .zero start text) (hne : text ≠ [])
    (rest : List UInt8) : ∃ lexer, Meets Powers cfg (start ++ text ++ rest) lexer rest := by
  obtain ⟨calls, t, hrun, -⟩ := hread.inside text hne List.prefix_rfl
  exact ⟨t.lex, meets_iff.mpr ⟨start ++ text, calls, t.index, rfl, hrun⟩⟩

lemma FloatText.ends (h : FloatText fs text rest) (hread : Consumes Powers cfg .zero start text)
    (hmeets : Meets Powers cfg (start ++ text ++ rest) lexer rest) :
    FloatEnds lexer rest ∧ lexer.fracPower = fs.length % 2 ^ 16 :=
  (Moves.of_meets hbits hread h.ne_nil (fun _ hs hin => h.moves hbits hs hin) hmeets :)

lemma exists_floatText {input : List UInt8} (hmeets : Meets Powers cfg input lexer rest)
    (hends : FloatEnds lexer rest) : ∃ start text fs, input = start ++ text ++ rest ∧
      Consumes Powers cfg .zero start text ∧ FloatText fs text rest := by
  obtain ⟨pre, calls, index, rfl, hrun⟩ := meets_iff.mp hmeets
  have hstate : lexer.state = .inNumberFrac ∨ lexer.state = .inNumberExp := by
    cases rest with
    | nil => exact hends
    | cons b rest => exact hends.2.imp And.left And.left
  have hin : InNumber lexer := .inr (.inr (hstate.imp id .inr))
  obtain ⟨start, text, rfl, hread, htext⟩ := run_reading hbits ⟨tidy_zero cfg, rfl⟩ hrun hin
  have hread' : ReadOfNumber cfg text lexer := htext
  refine ⟨start, text, ?_⟩
  cases hread' with
  | sign h | int _ h | expSign _ _ h => simp [h.state] at hstate
  | @frac minus ds fs _ hint hfs h =>
    refine ⟨fs, rfl, hread, .frac hint hfs fun b hb => ?_⟩
    obtain ⟨rest, rfl⟩ := List.head?_eq_some_iff.mp hb
    obtain ⟨hdigit, ⟨-, hletter⟩ | ⟨hexp, -⟩⟩ := hends
    · exact ⟨hdigit, hletter⟩
    · simp [h.state] at hexp
  | @exp m letter sign negative es _ hletter hsign hes hne h =>
    refine ⟨m.frac.getD [], rfl, hread, ?_⟩
    by_cases hempty : es = []
    · subst hempty
      obtain ⟨b, rfl⟩ := Option.ne_none_iff_exists'.mp fun hnone => hne hnone rfl
      cases rest with
      | nil =>
        rw [List.append_nil]
        exact .sign m hletter (hsign b rfl)
      | cons c rest =>
        obtain ⟨-, ⟨hfrac, -⟩ | ⟨-, hdigits⟩⟩ := hends
        · simp [h.state] at hfrac
        · exact absurd rfl (h.notEmpty.mp hdigits)
    · rw [List.append_assoc]
      refine .exp m ⟨letter, sign, es, hletter, hsign, hes, hempty⟩ fun b hb => ?_
      obtain ⟨rest, rfl⟩ := List.head?_eq_some_iff.mp hb
      exact hends.1

/-- The lookups are in the table if and only if the number of digits in each fraction is at most 323 in
the 16 bits of `frac_power`. -/
theorem powers_inTable_iff (chunks : List (List UInt8)) : LooksUpInTable cfg chunks ↔
    ∀ start text rest fs, chunks.flatten = start ++ text ++ rest →
      Consumes Powers cfg .zero start text → FloatText fs text rest → fs.length % 2 ^ 16 ≤ 323 := by
  rw [looksUpInTable_iff hbits]
  constructor
  · intro h start text rest fs hinput hread htext
    obtain ⟨lexer, hmeets⟩ := hread.meets htext.ne_nil rest
    obtain ⟨hends, hpower⟩ := htext.ends hbits hread hmeets
    exact hpower ▸ h lexer rest (hinput ▸ hmeets) hends
  · intro h lexer rest hmeets hends
    obtain ⟨start, text, fs, hinput, hread, htext⟩ := exists_floatText hbits hmeets hends
    rw [(htext.ends hbits hread (hinput ▸ hmeets)).2]
    exact h start text rest fs hinput hread htext

end Lookups

def longFraction (k : ℕ) : List UInt8 :=
  '0'.toUInt8 :: '.'.toUInt8 :: List.replicate k '0'.toUInt8

lemma longFraction_looked_up :
    .tokenf {324} (.buffer 325) ∈
      trace (δ := Powers) .default .zero 0 [longFraction 324, [' '.toUInt8]] := by
  decide +kernel

lemma not_inTable_end : ¬InTable 324 := by decide

theorem longFraction_leaves_table : ¬LooksUpInTable .default [longFraction 324, [' '.toUInt8]] :=
  fun h => not_inTable_end (h.1 _ longFraction_looked_up 324 (Multiset.mem_singleton_self _))

lemma length_frac_lt (m : Mantissa) : (m.frac.getD []).length < m.text.length := by
  have hint := List.length_pos_iff.mpr m.isInt.ne_nil
  rw [Mantissa.text, List.length_append, List.length_append]
  cases m.frac with
  | none =>
    rw [Option.getD_none, List.length_nil]
    omega
  | some fs =>
    rw [Option.getD_some, fracText, List.length_cons]
    omega

lemma FloatText.length_le {fs text rest : List UInt8} (h : FloatText fs text rest) :
    fs.length + 2 ≤ text.length := by
  cases h with
  | frac hint hfs hend =>
    have hpos := List.length_pos_iff.mpr hint.ne_nil
    simp only [List.length_append, List.length_cons]
    omega
  | exp m e hend =>
    have hlt := length_frac_lt m
    have hpos := List.length_pos_iff.mpr e.isDigits.2
    simp only [Exponent.text, List.length_append, List.length_cons]
    omega
  | sign m hletter hsign =>
    have hlt := length_frac_lt m
    simp only [List.length_append, List.length_cons, List.length_nil]
    omega

/-- Too short for 324 digits behind a point. -/
def shortInput : List (List UInt8) := [longFraction 319, "e-5 ".toList.map Char.toUInt8]

theorem powers_inTable_iff_shortInput :
    LooksUpInTable .default shortInput ∧
      .tokenf {319, 5} (.buffer 323) ∈ trace (δ := Powers) .default .zero 0 shortInput := by
  have hbits : 8 ≤ Config.default.intBits := by decide
  refine ⟨(powers_inTable_iff hbits shortInput).mpr fun start text rest fs hinput _ htext => ?_, ?_⟩
  · have hlength := congrArg List.length hinput
    have hshort : shortInput.flatten.length = 325 := by decide +kernel
    have hdigits := htext.length_le
    rw [List.length_append, List.length_append] at hlength
    omega
  · decide +kernel

end Embedjson
