import Embedjson.Lexer.Scanner

/-! The push loop computes the scanner: the calls it has made, together with the raw bytes between
`string_chunk_begin` and `data` that it has not delivered yet, are the calls of the scanner. -/

namespace Embedjson

open Foundations Foundations.Program

variable {δ : Type}

def Pointer.shift (base : ℤ) : Pointer → Pointer
  | .buffer i => .buffer (base + i)
  | p => p

/-- A call as the scanner makes it, in a push that starts at byte `base` of the input. -/
def LexerCall.cut (base : ℤ) : LexerCall δ → List (LexerCall δ)
  | .token tok p => [.token tok (p.shift base)]
  | .tokenc _ bytes => bytes.map charCall
  | .tokeni v p => [.tokeni v (p.shift base)]
  | .tokenf v p => [.tokenf v (p.shift base)]
  | .tokencBegin p => [.tokencBegin (p.shift base)]
  | .tokencEnd p => [.tokencEnd (p.shift base)]
  | .tokenbnBegin p v => [.tokenbnBegin (p.shift base) v]
  | .tokenbn _ bytes => bytes.map bignumCall
  | .tokenbnEnd p => [.tokenbnEnd (p.shift base)]
  | .errorEx code p => [.errorEx code (p.shift base)]

def cutAll (base : ℤ) (calls : List (LexerCall δ)) : List (LexerCall δ) :=
  calls.flatMap (LexerCall.cut base)

@[simp] lemma cutAll_nil (base : ℤ) : cutAll base ([] : List (LexerCall δ)) = [] := rfl

@[simp] lemma cutAll_cons (base : ℤ) (f : LexerCall δ) (l : List (LexerCall δ)) :
    cutAll base (f :: l) = f.cut base ++ cutAll base l := rfl

@[simp] lemma cutAll_append (base : ℤ) (l m : List (LexerCall δ)) :
    cutAll base (l ++ m) = cutAll base l ++ cutAll base m := by
  simp [cutAll]

def LexerCall.Nonempty : LexerCall δ → Prop
  | .tokenc _ bytes | .tokenbn _ bytes => bytes ≠ []
  | _ => True

def LexerCall.isChunk : LexerCall δ → Bool
  | .tokenc _ _ | .tokenbn _ _ => true
  | _ => false

section Observations

@[simp] lemma observe_fallThrough {α : Type} (a : α) :
    observe LexerCall.isError (fallThrough a : LexerProgram δ α) = ([], some (.ok a)) := rfl

lemma observe_returnError {α : Type} (code : ErrorCode) (p : Pointer) :
    observe LexerCall.isError (returnError code p : LexerProgram δ α) =
      ([.errorEx code p], none) := rfl

lemma observe_returnIf {α : Type} {f : LexerCall δ} (hf : f.isError = false)
    (k : LexerProgram δ α) :
    observe LexerCall.isError (returnIf f k) =
      (f :: (observe LexerCall.isError k).1, (observe LexerCall.isError k).2) := by
  simp [returnIf, observe_call_of_notMem hf]

end Observations

lemma deref_bounds {chunk : List UInt8} {data : ℤ} {b : UInt8} (hb : deref chunk data = some b) :
    0 ≤ data ∧ data < chunk.length := by
  rw [deref] at hb
  split_ifs at hb with h₀
  obtain ⟨hlt, -⟩ := List.getElem?_eq_some_iff.mp hb
  exact ⟨h₀, by omega⟩

lemma deref_lt {chunk : List UInt8} {data : ℤ} {b : UInt8} (hb : deref chunk data = some b) :
    data < chunk.length := (deref_bounds hb).2

lemma range_self (chunk : List UInt8) (i : ℤ) : range chunk (.buffer i) i = [] := by
  simp [range]

lemma range_succ {chunk : List UInt8} {i j : ℤ} {b : UInt8} (hi : 0 ≤ i) (hij : i ≤ j)
    (hb : deref chunk j = some b) :
    range chunk (.buffer i) (j + 1) = range chunk (.buffer i) j ++ [b] := by
  obtain ⟨m, rfl⟩ := Int.eq_ofNat_of_zero_le hi
  obtain ⟨k, rfl⟩ := Int.le.dest hij
  have hk : (chunk.drop m)[k]? = some b := by
    rw [deref, if_pos (by omega)] at hb
    rw [List.getElem?_drop, ← hb]
    congr 1
  have h₁ : ((m : ℤ) + k + 1 - m).toNat = k + 1 := by omega
  have h₂ : ((m : ℤ) + k - m).toNat = k := by omega
  simp only [range, Int.toNat_natCast, h₁, h₂, List.take_add_one, hk, Option.toList_some]

lemma range_ne_nil {chunk : List UInt8} {i j : ℤ} (hi : 0 ≤ i) (hij : i < j)
    (hj : j ≤ chunk.length) : range chunk (.buffer i) j ≠ [] := by
  intro h
  have hl := congrArg List.length h
  simp only [range, List.length_take, List.length_drop, List.length_nil] at hl
  omega

def Plain (state : LexerState) : Prop := state ≠ .inString ∧ state ≠ .inBigNumber

instance (state : LexerState) : Decidable (Plain state) := inferInstanceAs (Decidable (_ ∧ _))

lemma plain_lookupToken : Plain .lookupToken := by decide

lemma plain_inStringEscape : Plain .inStringEscape := by decide

/-- The raw bytes of the chunk that have been read and not delivered. -/
def pending (chunk : List UInt8) (c : Cursor) : List (LexerCall δ) :=
  match c.lex.state with
  | .inString => (range chunk c.stringChunkBegin c.data).map charCall
  | .inBigNumber => (range chunk c.stringChunkBegin c.data).map bignumCall
  | _ => []

/-- Inside a string and a big number `string_chunk_begin` points into the part already read. -/
def Tied (c : Cursor) : Prop :=
  ¬Plain c.lex.state → ∃ i, c.stringChunkBegin = .buffer i ∧ 0 ≤ i ∧ i ≤ c.data

lemma pending_of_plain {chunk : List UInt8} {c : Cursor} (h : Plain c.lex.state) :
    (pending chunk c : List (LexerCall δ)) = [] := by
  obtain ⟨h₁, h₂⟩ := h
  unfold pending
  split <;> simp_all

lemma tied_of_plain {c : Cursor} (h : Plain c.lex.state) : Tied c := fun hn => absurd h hn

def Cursor.next (c : Cursor) : Cursor := { c with data := c.data + 1 }

def Simulates (base : ℤ) (chunk : List UInt8) (c : Cursor)
    (x : List (LexerCall δ) × Option (Flow Cursor)) : Reaction δ → Prop
  | .consume calls lex => ∃ l c', x = (l, some (.ok c')) ∧ c'.lex = lex ∧ c'.data = c.data ∧
      Tied c'.next ∧ cutAll base l ++ pending chunk c'.next = pending chunk c ++ calls ∧
      ∀ f ∈ l, f.Nonempty
  | .unread calls lex => ∃ l c', x = (l, some (.ok c')) ∧ c'.lex = lex ∧ c'.data = c.data - 1 ∧
      lex.state = .lookupToken ∧ cutAll base l = pending chunk c ++ calls ∧ ∀ f ∈ l, f.Nonempty
  | .reject code => x = ([.errorEx code c.position], none)

variable {base : ℤ} {chunk : List UInt8} {c : Cursor} {b : UInt8}

lemma Simulates.consume {l calls : List (LexerCall δ)} {c' : Cursor}
    (hc : Plain c.lex.state) (hc' : Plain c'.lex.state) (hdata : c'.data = c.data)
    (hcut : cutAll base l = calls) (hne : ∀ f ∈ l, f.Nonempty) :
    Simulates base chunk c (l, some (.ok c')) (.consume calls c'.lex) :=
  ⟨l, c', rfl, rfl, hdata, tied_of_plain hc',
    by rw [pending_of_plain hc, pending_of_plain (c := c'.next) hc', hcut]; simp, hne⟩

lemma Simulates.enter {l calls : List (LexerCall δ)} {c' : Cursor} (hc : Plain c.lex.state)
    (h₀ : 0 ≤ c.data) (hdata : c'.data = c.data)
    (hbegin : c'.stringChunkBegin = .buffer (c.data + 1)) (hcut : cutAll base l = calls)
    (hne : ∀ f ∈ l, f.Nonempty) :
    Simulates base chunk c (l, some (.ok c')) (.consume calls c'.lex) := by
  have hp : (pending chunk c'.next : List (LexerCall δ)) = [] := by
    simp only [pending, Cursor.next, hbegin, hdata, range_self]
    split <;> rfl
  exact ⟨l, c', rfl, rfl, hdata,
    fun _ => ⟨c.data + 1, hbegin, by omega, by simp [Cursor.next, hdata]⟩,
    by rw [pending_of_plain hc, hp, hcut]; simp, hne⟩

lemma Simulates.leave {l calls : List (LexerCall δ)} {c' : Cursor} (hc' : Plain c'.lex.state)
    (hdata : c'.data = c.data) (hcut : cutAll base l = pending chunk c ++ calls)
    (hne : ∀ f ∈ l, f.Nonempty) :
    Simulates base chunk c (l, some (.ok c')) (.consume calls c'.lex) :=
  ⟨l, c', rfl, rfl, hdata, tied_of_plain hc',
    by rw [pending_of_plain (c := c'.next) hc', List.append_nil, hcut], hne⟩

lemma Simulates.unread {l calls : List (LexerCall δ)} {c' : Cursor} (hc : Plain c.lex.state)
    (hdata : c'.data = c.data - 1) (hstate : c'.lex.state = .lookupToken)
    (hcut : cutAll base l = calls) (hne : ∀ f ∈ l, f.Nonempty) :
    Simulates base chunk c (l, some (.ok c')) (.unread calls c'.lex) :=
  ⟨l, c', rfl, rfl, hdata, hstate, by rw [pending_of_plain hc, hcut]; simp, hne⟩

lemma Simulates.reject (code : ErrorCode) :
    Simulates base chunk c (observe LexerCall.isError (returnError code c.position))
      (.reject code : Reaction δ) := rfl

lemma Simulates.ite {p : Prop} [Decidable p] {k m : LexerProgram δ Cursor} {r s : Reaction δ}
    (hk : p → Simulates base chunk c (observe LexerCall.isError k) r)
    (hm : ¬p → Simulates base chunk c (observe LexerCall.isError m) s) :
    Simulates base chunk c (observe LexerCall.isError (if p then k else m))
      (if p then r else s) := by
  by_cases h : p
  · rw [if_pos h, if_pos h]
    exact hk h
  · rw [if_neg h, if_neg h]
    exact hm h

lemma Simulates.quiet {c' : Cursor} (hc : Plain c.lex.state) (hc' : Plain c'.lex.state)
    (hdata : c'.data = c.data) :
    Simulates base chunk c (observe LexerCall.isError (fallThrough c'))
      (.consume [] c'.lex : Reaction δ) :=
  .consume hc hc' hdata rfl (by simp)

lemma Simulates.report {f g : LexerCall δ} {c' : Cursor} (hc : Plain c.lex.state)
    (hc' : Plain c'.lex.state) (hdata : c'.data = c.data) (hf : f.isError = false)
    (hcut : f.cut base = [g]) (hne : f.Nonempty) :
    Simulates base chunk c (observe LexerCall.isError (returnIf f (fallThrough c')))
      (.consume [g] c'.lex) := by
  rw [observe_returnIf hf]
  exact .consume hc hc' hdata (by simp [hcut]) (by simpa using hne)

lemma lookupToken_simulates (hs : c.lex.state = .lookupToken) (h₀ : 0 ≤ c.data) :
    Simulates base chunk c (observe LexerCall.isError (lookupToken c b))
      (Reaction.ofLookup c.lex (.buffer (base + c.data)) b : Reaction δ) := by
  have hc : Plain c.lex.state := by rw [hs]; decide
  refine .ite (fun _ => .quiet hc hc rfl) fun _ => ?_
  iterate 6 refine .ite (fun _ => .report hc hc rfl rfl rfl trivial) fun _ => ?_
  refine .ite (fun _ => ?_) fun _ => ?_
  · rw [observe_returnIf rfl]
    exact .enter hc h₀ rfl rfl rfl (by simp [LexerCall.Nonempty])
  iterate 4 refine .ite (fun _ => .quiet hc ⟨nofun, nofun⟩ rfl) fun _ => ?_
  refine .ite (fun _ => .reject _) fun _ => ?_
  exact .ite (fun _ => .quiet hc ⟨nofun, nofun⟩ rfl) fun _ => .reject _

variable (base) in
lemma observe_flush {α : Type} {f : Pointer → List UInt8 → LexerCall δ} {g : UInt8 → LexerCall δ}
    (hf : ∀ d bytes, (f d bytes).isError = false)
    (hcut : ∀ d bytes, (f d bytes).cut base = bytes.map g)
    (hne : ∀ d bytes, bytes ≠ [] → (f d bytes).Nonempty) {i : ℤ}
    (hi : c.stringChunkBegin = .buffer i) (h₀ : 0 ≤ i) (hle : i ≤ c.data)
    (hlen : c.data ≤ chunk.length) (k : LexerProgram δ α) :
    ∃ l, observe LexerCall.isError (flush f chunk c k) =
        (l ++ (observe LexerCall.isError k).1, (observe LexerCall.isError k).2) ∧
      cutAll base l = (range chunk c.stringChunkBegin c.data).map g ∧ ∀ x ∈ l, x.Nonempty := by
  by_cases h : c.position = c.stringChunkBegin
  · have hd : i = c.data := by simpa [Cursor.position, hi] using h.symm
    exact ⟨[], by simp [flush, h], by simp [hi, hd, range_self], by simp⟩
  · have hd : i < c.data := lt_of_le_of_ne hle fun hd => h (by rw [hi, hd]; rfl)
    refine ⟨[f c.stringChunkBegin (range chunk c.stringChunkBegin c.data)], ?_, by simp [hcut], ?_⟩
    · rw [flush, if_pos h, observe_returnIf (hf _ _)]
      rfl
    · simpa using hne _ _ (by rw [hi]; exact range_ne_nil h₀ hd hlen)

lemma continuation_counters {lex lex' : Lexer} (h : continuation lex b = .ok lex') :
    ∃ nb cc, lex' = { lex with nb := nb, cc := cc } := by
  rw [continuation] at h
  split_ifs at h <;> cases h <;> exact ⟨_, _, rfl⟩

lemma leadByte_counters {lex lex' : Lexer} {last : Bool} (h : leadByte lex b = .ok (lex', last)) :
    ∃ nb cc, lex' = { lex with nb := nb, cc := cc } := by
  rw [leadByte] at h
  split_ifs at h <;> cases h <;> exact ⟨_, _, rfl⟩

lemma checkUtf8_counters {cfg : Config} {lex lex' : Lexer} {last : Bool}
    (h : checkUtf8 cfg lex b = .ok (lex', last)) :
    ∃ nb cc, lex' = { lex with nb := nb, cc := cc } := by
  rw [checkUtf8] at h
  split_ifs at h
  · cases hc : continuation lex b with
    | error code => simp [hc, Except.bind] at h
    | ok lex₁ =>
      rw [hc] at h
      obtain ⟨_, _, rfl⟩ := continuation_counters hc
      obtain ⟨nb, cc, rfl⟩ := leadByte_counters h
      exact ⟨nb, cc, rfl⟩
  · exact leadByte_counters h
  · cases h
    exact ⟨_, _, rfl⟩

lemma checkUtf8_state {cfg : Config} {lex lex' : Lexer} {last : Bool}
    (h : checkUtf8 cfg lex b = .ok (lex', last)) : lex'.state = lex.state := by
  obtain ⟨_, _, rfl⟩ := checkUtf8_counters h
  rfl

lemma leadByte_false {lex lex' : Lexer} (h : leadByte lex b = .ok (lex', false)) :
    b ≠ '\\'.toUInt8 ∧ b ≠ '\"'.toUInt8 := by
  constructor
  · rintro rfl
    have hlead : leadByte lex '\\'.toUInt8 = .ok (lex, true) := rfl
    simp [hlead] at h
  · rintro rfl
    have hlead : leadByte lex '\"'.toUInt8 = .ok (lex, true) := rfl
    simp [hlead] at h

lemma checkUtf8_false {cfg : Config} {lex lex' : Lexer} (h : checkUtf8 cfg lex b = .ok (lex', false)) :
    b ≠ '\\'.toUInt8 ∧ b ≠ '\"'.toUInt8 := by
  rw [checkUtf8] at h
  split_ifs at h
  · cases hc : continuation lex b with
    | error code => simp [hc, Except.bind] at h
    | ok lex₁ =>
      rw [hc] at h
      exact leadByte_false h
  · exact leadByte_false h
  · cases h

lemma inString_simulates {cfg : Config} (hs : c.lex.state = .inString) (ht : Tied c)
    (hb : deref chunk c.data = some b) (hlen : c.data < chunk.length) :
    Simulates base chunk c (observe LexerCall.isError (inString cfg chunk c b))
      (Reaction.ofString cfg c.lex (.buffer (base + c.data)) b : Reaction δ) := by
  obtain ⟨i, hi, h₀, hle⟩ := ht (by rw [hs]; decide)
  have hp : (pending chunk c : List (LexerCall δ)) =
      (range chunk c.stringChunkBegin c.data).map charCall := by simp [pending, hs]
  -- A byte that stays in the string is pending afterwards.
  have hstay : ∀ lex : Lexer, lex.state = .inString →
      Simulates base chunk c (observe LexerCall.isError (fallThrough { c with lex := lex }))
        (.consume [charCall b] lex : Reaction δ) := by
    intro lex hlex
    refine ⟨[], _, rfl, rfl, rfl, fun _ => ⟨i, hi, h₀, by simp [Cursor.next]; omega⟩, ?_, by simp⟩
    simp [pending, Cursor.next, hs, hlex, hi, range_succ h₀ hle hb]
  have hflush : ∀ k : LexerProgram δ Cursor, ∃ l,
      observe LexerCall.isError (flush .tokenc chunk c k) =
        (l ++ (observe LexerCall.isError k).1, (observe LexerCall.isError k).2) ∧
      cutAll base l = (pending chunk c : List (LexerCall δ)) ∧ ∀ x ∈ l, x.Nonempty := by
    intro k
    rw [hp]
    exact observe_flush base (fun _ _ => rfl) (fun _ _ => rfl) (fun _ _ => id) hi h₀ hle hlen.le k
  unfold inString Reaction.ofString
  cases hc : checkUtf8 cfg c.lex b with
  | error code => exact .reject code
  | ok a =>
    obtain ⟨lex, last⟩ := a
    have hlex : lex.state = .inString := by rw [checkUtf8_state hc, hs]
    cases last with
    | false => exact hstay lex hlex
    | true =>
      refine .ite (fun _ => ?_) fun _ => .ite (fun _ => ?_) fun _ => .ite (fun _ => ?_) fun _ => ?_
      · obtain ⟨l, ho, hcut, hne⟩ := hflush (fallThrough
          { c with lex := { lex with state := .inStringEscape } })
        rw [ho]
        exact .leave ⟨nofun, nofun⟩ rfl (by simp [hcut]) (by simpa using hne)
      · obtain ⟨l, ho, hcut, hne⟩ := hflush (returnIf (.tokencEnd c.position) (fallThrough
          { c with lex := { lex with state := .lookupToken } }))
        rw [ho, observe_returnIf rfl]
        refine .leave ⟨nofun, nofun⟩ rfl ?_ ?_
        · simp [hcut, LexerCall.cut, Cursor.position, Pointer.shift]
        · simpa [or_imp, forall_and, LexerCall.Nonempty] using hne
      · exact .reject _
      · exact hstay lex hlex

lemma inStringEscape_simulates (hs : c.lex.state = .inStringEscape) (h₀ : 0 ≤ c.data) :
    Simulates base chunk c (observe LexerCall.isError (inStringEscape c b))
      (Reaction.ofEscape c.lex b : Reaction δ) := by
  have hc : Plain c.lex.state := by rw [hs]; decide
  unfold inStringEscape Reaction.ofEscape
  cases escapeByte b with
  | none => exact .ite (fun _ => .quiet hc ⟨nofun, nofun⟩ rfl) fun _ => .reject _
  | some e =>
    dsimp only
    rw [observe_returnIf rfl]
    exact .enter hc h₀ rfl rfl rfl (by simp [LexerCall.Nonempty])

lemma inStringUnicodeEscape_simulates (hs : c.lex.state = .inStringUnicodeEscape)
    (h₀ : 0 ≤ c.data) :
    Simulates base chunk c (observe LexerCall.isError (inStringUnicodeEscape c b))
      (Reaction.ofUnicodeEscape c.lex b : Reaction δ) := by
  have hc : Plain c.lex.state := by rw [hs]; decide
  unfold inStringUnicodeEscape Reaction.ofUnicodeEscape
  cases hexDigit b with
  | none => exact .reject _
  | some value =>
    refine .ite (fun _ => ?_) fun ho => .quiet hc ?_ rfl
    · rw [observe_returnIf rfl]
      exact .enter hc h₀ rfl rfl rfl (by simp [LexerCall.Nonempty])
    · simpa only [pushHexDigit, if_neg ho] using hc

lemma inNumberSign_simulates {cfg : Config} (hs : c.lex.state = .inNumberSign) :
    Simulates base chunk c (observe LexerCall.isError (inNumberSign cfg c b))
      (Reaction.ofNumberSign cfg c.lex b : Reaction δ) := by
  have hc : Plain c.lex.state := by rw [hs]; decide
  exact .ite (fun _ => .quiet hc ⟨nofun, nofun⟩ rfl) fun _ => .reject _

/-- A byte that ends a number is looked at again, and the call is made one byte before it. -/
lemma Simulates.report_unread {f g : LexerCall δ} {lex : Lexer} (hc : Plain c.lex.state)
    (hstate : lex.state = .lookupToken) (hf : f.isError = false) (hcut : f.cut base = [g])
    (hne : f.Nonempty) :
    Simulates base chunk c
      (observe LexerCall.isError (returnIf f (fallThrough { c with data := c.data - 1, lex := lex })))
      (.unread [g] lex) := by
  rw [observe_returnIf hf]
  exact ⟨[f], { c with data := c.data - 1, lex := lex }, rfl, rfl, rfl, hstate,
    by rw [pending_of_plain hc]; simp [hcut], by simpa using hne⟩

lemma shift_before (base i : ℤ) : (Pointer.buffer (i - 1)).shift base = .buffer (base + i - 1) := by
  simp [Pointer.shift]
  omega

lemma inNumber_simulates {cfg : Config} (hs : c.lex.state = .inNumber) (h₀ : 0 ≤ c.data) :
    Simulates base chunk c (observe LexerCall.isError (inNumber cfg c b))
      (Reaction.ofNumber cfg c.lex (.buffer (base + c.data)) (.buffer (base + c.data - 1)) b :
        Reaction δ) := by
  have hc : Plain c.lex.state := by rw [hs]; decide
  refine .ite (fun _ => .ite (fun _ => .reject _) fun _ => .ite (fun _ => .ite (fun _ => ?_)
    fun _ => .reject _) fun _ => .quiet hc hc rfl) fun _ => ?_
  · rw [observe_returnIf rfl]
    exact .enter hc h₀ rfl rfl rfl (by simp [LexerCall.Nonempty])
  refine .ite (fun _ => .quiet hc ⟨nofun, nofun⟩ rfl) fun _ => ?_
  refine .ite (fun _ => .quiet hc ⟨nofun, nofun⟩ rfl) fun _ => ?_
  exact .report_unread hc rfl rfl (by rw [← shift_before]; rfl) trivial

lemma inNumberExpSign_simulates (hs : c.lex.state = .inNumberExpSign) :
    Simulates base chunk c (observe LexerCall.isError (inNumberExpSign c b))
      (Reaction.ofExpSign c.lex b : Reaction δ) := by
  have hc : Plain c.lex.state := by rw [hs]; decide
  refine .ite (fun _ => .quiet hc ⟨nofun, nofun⟩ rfl) fun _ => ?_
  refine .ite (fun _ => .quiet hc ⟨nofun, nofun⟩ rfl) fun _ => ?_
  exact .ite (fun _ => .reject _) fun _ => .quiet hc ⟨nofun, nofun⟩ rfl

lemma inKeyword_simulates {keyword : String} {code : ErrorCode} {tok : Tok} {last : ℕ}
    (hc : Plain c.lex.state) :
    Simulates base chunk c (observe LexerCall.isError (inKeyword keyword code tok last c b))
      (Reaction.ofKeyword keyword code tok last c.lex (.buffer (base + c.data)) b : Reaction δ) := by
  refine .ite (fun _ => .reject _) fun _ => .ite (fun _ => ?_) fun _ => .quiet hc hc rfl
  exact .report hc ⟨nofun, nofun⟩ rfl rfl rfl trivial

lemma inBigNumber_simulates (hs : c.lex.state = .inBigNumber) (ht : Tied c)
    (hb : deref chunk c.data = some b) (hlen : c.data < chunk.length) :
    Simulates base chunk c (observe LexerCall.isError (inBigNumber chunk c b))
      (Reaction.ofBigNumber c.lex (.buffer (base + c.data - 1)) b : Reaction δ) := by
  obtain ⟨i, hi, h₀, hle⟩ := ht (by rw [hs]; decide)
  have hp : (pending chunk c : List (LexerCall δ)) =
      (range chunk c.stringChunkBegin c.data).map bignumCall := by simp [pending, hs]
  refine .ite (fun _ => ?_) fun _ => ?_
  · refine ⟨[], _, rfl, rfl, rfl, fun _ => ⟨i, hi, h₀, by simp [Cursor.next]; omega⟩, ?_, by simp⟩
    simp [pending, Cursor.next, hs, hi, range_succ h₀ hle hb]
  · obtain ⟨l, ho, hcut, hne⟩ := observe_flush (f := .tokenbn) (g := bignumCall) base
      (fun _ _ => rfl) (fun _ _ => rfl) (fun _ _ => id) hi h₀ hle hlen.le
      (returnIf (.tokenbnEnd (.buffer (c.data - 1)))
        (fallThrough { c with data := c.data - 1, lex := resetNumber c.lex }))
    rw [ho, observe_returnIf rfl]
    refine ⟨l ++ [.tokenbnEnd (.buffer (c.data - 1))], _, rfl, rfl, rfl, rfl, ?_, ?_⟩
    · rw [cutAll_append, hcut, hp, ← shift_before]
      rfl
    · simpa [or_imp, forall_and, LexerCall.Nonempty] using hne

lemma pending_recordMagic (chunk : List UInt8) (c : Cursor) (b : UInt8) :
    (pending chunk { c with lex := recordMagic c.lex b } : List (LexerCall δ)) =
      pending chunk c := by
  simp [pending]

lemma tied_recordMagic {c : Cursor} (h : Tied c) (b : UInt8) :
    Tied { c with lex := recordMagic c.lex b } := by
  simpa [Tied] using h

/-- What the rest of a loop owes to the scanner, from the cursor `c`. -/
def Delivers (base : ℤ) (chunk : List UInt8) (c : Cursor)
    (x : List (LexerCall δ) × Option (Option (Flow Cursor)))
    (y : List (LexerCall δ) × Except ErrorCode Scan) : Prop :=
  (∀ f ∈ x.1, f.Nonempty) ∧
  match y.2 with
  | .ok s => ∃ c', x.2 = some (some (.ok c')) ∧ s = ⟨c'.lex, base + c'.data⟩ ∧
      c'.data = chunk.length ∧ Tied c' ∧ cutAll base x.1 ++ pending chunk c' = pending chunk c ++ y.1
  | .error code => x.2 = none ∧ ∃ (l q : List (LexerCall δ)) (i : ℤ),
      x.1 = l ++ [.errorEx code (.buffer i)] ∧
      0 ≤ i ∧ i < chunk.length ∧ cutAll base l ++ q = pending chunk c ++ y.1 ∧ ∀ f ∈ q, f.isChunk

lemma Delivers.prepend {c c' : Cursor} {l calls : List (LexerCall δ)}
    {x : List (LexerCall δ) × Option (Option (Flow Cursor))}
    {y : List (LexerCall δ) × Except ErrorCode Scan}
    (hcut : cutAll base l ++ pending chunk c' = pending chunk c ++ calls)
    (hne : ∀ f ∈ l, f.Nonempty) (h : Delivers base chunk c' x y) :
    Delivers base chunk c (l ++ x.1, x.2) (calls ++ y.1, y.2) := by
  obtain ⟨calls', e | s⟩ := y
  · obtain ⟨hx, hn, m, q, i, hm, hi₀, hi, hq, hchunk⟩ := h
    refine ⟨by simpa [or_imp, forall_and] using ⟨hne, hx⟩, hn, l ++ m, q, i, by simp [hm], hi₀, hi,
      ?_, hchunk⟩
    rw [cutAll_append, List.append_assoc, hq, ← List.append_assoc, hcut, List.append_assoc]
  · obtain ⟨hx, c'', hc, hs, hdata, ht, hq⟩ := h
    refine ⟨by simpa [or_imp, forall_and] using ⟨hne, hx⟩, c'', hc, hs, hdata, ht, ?_⟩
    rw [cutAll_append, List.append_assoc, hq, ← List.append_assoc, hcut, List.append_assoc]

variable (base) in
lemma flushEnd_delivers {c : Cursor} (hdata : c.data = chunk.length) (ht : Tied c) :
    ∃ l, observe LexerCall.isError (flushEnd chunk c : LexerProgram δ Lexer) =
        (l, some (.ok c.lex)) ∧
      cutAll base l = pending chunk c ∧ ∀ f ∈ l, f.Nonempty := by
  by_cases hp : Plain c.lex.state
  · refine ⟨[], ?_, (pending_of_plain hp).symm, by simp⟩
    obtain ⟨h₁, h₂⟩ := hp
    unfold flushEnd
    split <;> simp_all
  · obtain ⟨i, hi, h₀, hle⟩ := ht hp
    cases hs : c.lex.state with
    | inString =>
      obtain ⟨l, ho, hcut, hne⟩ := observe_flush (f := .tokenc) (g := charCall) base
        (fun _ _ => rfl) (fun _ _ => rfl) (fun _ _ => id) hi h₀ hle hdata.le
        (fallThrough c.lex : LexerProgram δ Lexer)
      exact ⟨l, by simp [flushEnd, hs, ho], by simp [pending, hs, hcut], hne⟩
    | inBigNumber =>
      obtain ⟨l, ho, hcut, hne⟩ := observe_flush (f := .tokenbn) (g := bignumCall) base
        (fun _ _ => rfl) (fun _ _ => rfl) (fun _ _ => id) hi h₀ hle hdata.le
        (fallThrough c.lex : LexerProgram δ Lexer)
      exact ⟨l, by simp [flushEnd, hs, ho], by simp [pending, hs, hcut], hne⟩
    | _ => exact absurd (by rw [hs]; decide) hp

variable [DoubleArith δ]

lemma inNumberFrac_simulates (hs : c.lex.state = .inNumberFrac) :
    Simulates base chunk c (observe LexerCall.isError (inNumberFrac c b))
      (Reaction.ofFrac c.lex (.buffer (base + c.data - 1)) b : Reaction δ) := by
  have hc : Plain c.lex.state := by rw [hs]; decide
  refine .ite (fun _ => .quiet hc hc rfl) fun _ => .ite (fun _ => .ite (fun _ => .reject _)
    fun _ => .quiet hc ⟨nofun, nofun⟩ rfl) fun _ => .ite (fun _ => .reject _) fun _ => ?_
  exact .report_unread hc rfl rfl (by rw [← shift_before]; rfl) trivial

lemma inNumberExp_simulates (hs : c.lex.state = .inNumberExp) :
    Simulates base chunk c (observe LexerCall.isError (inNumberExp c b))
      (Reaction.ofExp c.lex (.buffer (base + c.data - 1)) b : Reaction δ) := by
  have hc : Plain c.lex.state := by rw [hs]; decide
  refine .ite (fun _ => .ite (fun _ => .reject _) fun _ => .quiet hc hc rfl)
    fun _ => .ite (fun _ => .reject _) fun _ => ?_
  exact .report_unread hc rfl rfl (by rw [← shift_before]; rfl) trivial

variable {cfg : Config}

lemma dispatch_simulates (ht : Tied c) (hb : deref chunk c.data = some b) :
    Simulates base chunk c (observe LexerCall.isError (dispatch cfg chunk c b))
      (react cfg c.lex (base + c.data) b : Reaction δ) := by
  obtain ⟨h₀, hlen⟩ := deref_bounds hb
  have hc (state : LexerState) (hs : c.lex.state = state) (hp : Plain state) :
      Plain c.lex.state := hs ▸ hp
  unfold dispatch react
  cases hs : c.lex.state with
  | lookupToken => exact lookupToken_simulates hs h₀
  | inString => exact inString_simulates hs ht hb hlen
  | inStringEscape => exact inStringEscape_simulates hs h₀
  | inStringUnicodeEscape => exact inStringUnicodeEscape_simulates hs h₀
  | inNumberSign => exact inNumberSign_simulates hs
  | inNumber => exact inNumber_simulates hs h₀
  | inNumberFrac => exact inNumberFrac_simulates hs
  | inNumberExpSign => exact inNumberExpSign_simulates hs
  | inNumberExp => exact inNumberExp_simulates hs
  | inBigNumber => exact inBigNumber_simulates hs ht hb hlen
  | inTrue | inFalse | inNull => exact inKeyword_simulates (hc _ hs (by decide))

lemma dispatch_recorded (ht : Tied c) (hb : deref chunk c.data = some b) :
    Simulates base chunk { c with lex := recordMagic c.lex b }
      (observe LexerCall.isError (dispatch cfg chunk { c with lex := recordMagic c.lex b } b))
      (react cfg (recordMagic c.lex b) (base + c.data) b : Reaction δ) :=
  dispatch_simulates (c := { c with lex := recordMagic c.lex b }) (tied_recordMagic ht b) hb

lemma react_ne_unread {lex : Lexer} (hs : lex.state = .lookupToken) (index : ℤ) (b : UInt8)
    (calls : List (LexerCall δ)) (lex' : Lexer) : react cfg lex index b ≠ .unread calls lex' := by
  have hl : (Reaction.ofLookup lex (.buffer index) b : Reaction δ).isUnread = false := by
    simp only [Reaction.ofLookup, apply_ite Reaction.isUnread]
    simp only [Reaction.isUnread, ite_self]
  intro h
  simp [react, hs] at h
  simp [h, Reaction.isUnread] at hl

def afterDispatch (cfg : Config) (chunk : List UInt8) (fuel : ℕ) :
    Flow Cursor → Program (LexerCall δ) (Option (Flow Cursor))
  | .error r => .done (some (.error r))
  | .ok c => loop cfg chunk fuel c.next

lemma loop_eq {fuel : ℕ} {c : Cursor} {b : UInt8} (hdata : c.data ≠ chunk.length)
    (hb : deref chunk c.data = some b) :
    (loop cfg chunk (fuel + 1) c : Program (LexerCall δ) _) =
      (dispatch cfg chunk { c with lex := recordMagic c.lex b } b).bind
        (afterDispatch cfg chunk fuel) := by
  rw [loop, if_neg hdata, hb]
  rfl

lemma loop_succ {fuel : ℕ} {c : Cursor} {b : UInt8} (hb : deref chunk c.data = some b)
    (hlen : c.data < chunk.length) :
    observe LexerCall.isError (loop cfg chunk (fuel + 1) c : Program (LexerCall δ) _) =
      followedBy
        (observe LexerCall.isError (dispatch cfg chunk { c with lex := recordMagic c.lex b } b))
        fun
          | .error r => ([], some (some (.error r)))
          | .ok c' => observe LexerCall.isError (loop cfg chunk fuel c'.next) := by
  rw [loop_eq hlen.ne hb, observe_bind]
  congr 1
  funext a
  cases a <;> rfl

lemma loop_consume {fuel : ℕ} {c : Cursor} {b : UInt8} {calls : List (LexerCall δ)} {lex : Lexer}
    {y : List (LexerCall δ) × Except ErrorCode Scan} (ht : Tied c)
    (hb : deref chunk c.data = some b) (hlen : c.data < chunk.length)
    (hr : react cfg (recordMagic c.lex b) (base + c.data) b = .consume calls lex)
    (hrest : ∀ c', c'.lex = lex → c'.data = c.data + 1 → Tied c' →
      Delivers base chunk c' (observe LexerCall.isError (loop cfg chunk fuel c')) y) :
    Delivers base chunk c (observe LexerCall.isError (loop cfg chunk (fuel + 1) c))
      (calls ++ y.1, y.2) := by
  obtain ⟨l, c', ho, hlex, hdata, ht', hcut, hne⟩ := hr ▸ dispatch_recorded ht hb
  rw [loop_succ hb hlen, ho, followedBy_some]
  rw [pending_recordMagic] at hcut
  exact .prepend hcut hne (hrest c'.next hlex (by simp [Cursor.next, hdata]) ht')

lemma loop_reject {fuel : ℕ} {c : Cursor} {b : UInt8} {code : ErrorCode} (ht : Tied c)
    (hb : deref chunk c.data = some b) (h₀ : 0 ≤ c.data) (hlen : c.data < chunk.length)
    (hr : (react cfg (recordMagic c.lex b) (base + c.data) b : Reaction δ) = .reject code) :
    Delivers base chunk c (observe LexerCall.isError
      (loop cfg chunk (fuel + 1) c : Program (LexerCall δ) _)) ([], .error code) := by
  have hchunk : ∀ f ∈ (pending chunk c : List (LexerCall δ)), f.isChunk := by
    unfold pending
    split <;> simp [charCall, bignumCall, LexerCall.isChunk]
  rw [loop_succ hb hlen, show observe _ _ = _ from hr ▸ dispatch_recorded ht hb, followedBy_none]
  exact ⟨by simp [LexerCall.Nonempty], rfl, [], pending chunk c, c.data, rfl, h₀, hlen, by simp,
    hchunk⟩

lemma deref_drop {c : Cursor} (h₀ : 0 ≤ c.data) (hlen : c.data < chunk.length) :
    ∃ b, deref chunk c.data = some b ∧
      chunk.drop c.data.toNat = b :: chunk.drop (c.data + 1).toNat := by
  have hlt : c.data.toNat < chunk.length := by omega
  refine ⟨chunk[c.data.toNat], by rw [deref, if_pos h₀, List.getElem?_eq_getElem hlt], ?_⟩
  rw [List.drop_eq_getElem_cons hlt]
  congr 2
  omega

variable (base cfg) in
lemma loop_delivers {c : Cursor} (n : ℕ) (fuel : ℕ) (hf : 2 * n + 1 ≤ fuel)
    (hn : c.data + n = chunk.length) (h₀ : 0 ≤ c.data) (ht : Tied c) :
    Delivers base chunk c (observe LexerCall.isError (loop cfg chunk fuel c))
      ((scanner (δ := δ) cfg).run ⟨c.lex, base + c.data⟩ (chunk.drop c.data.toNat)) := by
  induction n generalizing fuel c with
  | zero =>
    obtain ⟨fuel, rfl⟩ : ∃ k, fuel = k + 1 := ⟨fuel - 1, by omega⟩
    have hd : c.data = chunk.length := by simpa using hn
    have hnil : chunk.drop c.data.toNat = [] := List.drop_eq_nil_of_le (by omega)
    rw [loop, if_pos hd, hnil]
    exact ⟨by simp, c, rfl, rfl, hd, ht, by simp⟩
  | succ n ih =>
    obtain ⟨fuel, rfl⟩ : ∃ k, fuel = k + 2 := ⟨fuel - 2, by omega⟩
    have hlen : c.data < chunk.length := by omega
    obtain ⟨b, hb, hdrop⟩ := deref_drop h₀ hlen
    -- The bytes after this one, from any cursor that stands behind it.
    have hrest (k : ℕ) (hk : 2 * n + 1 ≤ k) (lex : Lexer) (c' : Cursor) (hlex : c'.lex = lex)
        (hdata : c'.data = c.data + 1) (ht' : Tied c') :
        Delivers base chunk c' (observe LexerCall.isError (loop cfg chunk k c'))
          ((scanner (δ := δ) cfg).run ⟨lex, base + c.data + 1⟩ (chunk.drop (c.data + 1).toNat)) := by
      have h := ih k hk (by omega) (by omega) ht'
      rwa [hdata, ← add_assoc, hlex] at h
    rw [hdrop]
    cases hr : (react cfg (recordMagic c.lex b) (base + c.data) b : Reaction δ) with
    | consume calls lex =>
      have hs : (scanner (δ := δ) cfg).step ⟨c.lex, base + c.data⟩ b =
          (calls, .ok ⟨lex, base + c.data + 1⟩) := by simp [scanner, scanStep, hr]
      rw [Transducer.run_cons_ok _ hs]
      exact loop_consume ht hb hlen hr (hrest (fuel + 1) (by omega) lex)
    | reject code =>
      have hs : (scanner (δ := δ) cfg).step ⟨c.lex, base + c.data⟩ b = ([], .error code) := by
        simp [scanner, scanStep, hr]
      rw [Transducer.run_cons_error _ hs]
      exact loop_reject ht hb h₀ hlen hr
    | unread calls lex =>
      obtain ⟨l, c', ho, rfl, hdata, hstate, hcut, hne⟩ := hr ▸ dispatch_recorded ht hb
      have hp : Plain c'.lex.state := by rw [hstate]; decide
      have hd : c'.next.data = c.data := by simp [Cursor.next, hdata]
      have hcut' : cutAll base l ++ pending chunk c'.next = pending chunk c ++ calls := by
        rw [pending_of_plain (c := c'.next) hp, List.append_nil, hcut, pending_recordMagic]
      have hb' : deref chunk c'.next.data = some b := by rw [hd, hb]
      rw [loop_succ hb hlen, ho, followedBy_some]
      cases hr' : (react cfg (recordMagic c'.lex b) (base + c.data) b : Reaction δ) with
      | unread calls' lex' => exact absurd hr' (react_ne_unread (by simpa using hstate) _ _ _ _)
      | consume calls' lex' =>
        have hs : (scanner (δ := δ) cfg).step ⟨c.lex, base + c.data⟩ b =
            (calls ++ calls', .ok ⟨lex', base + c.data + 1⟩) := by
          simp [scanner, scanStep, hr, hr']
        have hc := loop_consume (c := c'.next) (tied_of_plain hp) hb' (by omega)
          (by rw [hd]; exact hr') fun c'' hlex hdata' =>
            hrest fuel (by omega) lex' c'' hlex (by omega)
        rw [Transducer.run_cons_ok _ hs]
        have hcons := hc.prepend hcut' hne
        simpa only [List.append_assoc] using hcons
      | reject code =>
        have hs : (scanner (δ := δ) cfg).step ⟨c.lex, base + c.data⟩ b =
            (calls, .error code) := by simp [scanner, scanStep, hr, hr']
        have hc : Delivers base chunk c'.next (observe LexerCall.isError
            (loop cfg chunk (fuel + 1) c'.next)) ([], .error code) :=
          loop_reject (δ := δ) (tied_of_plain hp) hb' (by omega) (by omega) (by rw [hd]; exact hr')
        rw [Transducer.run_cons_error _ hs]
        have hcons := hc.prepend hcut' hne
        simpa only [List.append_nil] using hcons

def Agrees (base : ℤ) (size : ℕ) (x : List (LexerCall δ) × Option (ℤ × Lexer))
    (y : List (LexerCall δ) × Except ErrorCode Scan) : Prop :=
  (∀ f ∈ x.1, f.Nonempty) ∧
  match y.2 with
  | .ok s => x.2 = some (0, s.lex) ∧ s.index = base + size ∧ cutAll base x.1 = y.1
  | .error code => x.2 = none ∧ ∃ (l q : List (LexerCall δ)) (i : ℤ),
      x.1 = l ++ [.errorEx code (.buffer i)] ∧ 0 ≤ i ∧ i < size ∧
        cutAll base l ++ q = y.1 ∧ ∀ f ∈ q, f.isChunk

omit [DoubleArith δ] in
lemma pending_start (chunk : List UInt8) (lexer : Lexer) :
    (pending chunk (start lexer) : List (LexerCall δ)) = [] := by
  cases hs : lexer.state <;> simp [pending, start, hs, range_self]

lemma tied_start (lexer : Lexer) : Tied (start lexer) := by
  intro hn
  refine ⟨0, ?_, le_rfl, le_rfl⟩
  have hs : lexer.state = .inString ∨ lexer.state = .inBigNumber := by
    simpa [Plain, start, imp_iff_not_or] using hn
  simp [start, hs]

variable (cfg) in
lemma start_delivers (lexer : Lexer) (base : ℤ) (chunk : List UInt8) :
    Delivers base chunk (start lexer)
      (observe LexerCall.isError (loop cfg chunk (2 * chunk.length + 1) (start lexer)))
      ((scanner (δ := δ) cfg).run ⟨lexer, base⟩ chunk) := by
  have h := loop_delivers (δ := δ) base cfg (c := start lexer) chunk.length (2 * chunk.length + 1)
    le_rfl (zero_add (chunk.length : ℤ)) le_rfl (tied_start lexer)
  rw [show base + (start lexer).data = base from add_zero base] at h
  exact h

def afterLoop (chunk : List UInt8) (lexer : Lexer) :
    Option (Flow Cursor) → Program (LexerCall δ) (ℤ × Lexer)
  | none => .done (0, lexer)
  | some (.error r) => .done (r, lexer)
  | some (.ok c) => (flushEnd chunk c).bind fun
    | .error r => .done (r, lexer)
    | .ok lex => .done (0, lex)

lemma embedjsonLexerPush_eq (lexer : Lexer) (chunk : List UInt8) :
    embedjsonLexerPush (δ := δ) cfg chunk lexer =
      (loop cfg chunk (2 * chunk.length + 1) (start lexer)).bind (afterLoop chunk lexer) := rfl

variable (cfg) in
theorem embedjsonLexerPush_agrees (lexer : Lexer) (base : ℤ) (chunk : List UInt8) :
    Agrees base chunk.length (observe LexerCall.isError (embedjsonLexerPush cfg chunk lexer))
      ((scanner (δ := δ) cfg).run ⟨lexer, base⟩ chunk) := by
  have hp₀ : (pending chunk (start lexer) : List (LexerCall δ)) = [] := pending_start chunk lexer
  have hloop := start_delivers (δ := δ) cfg lexer base chunk
  rw [embedjsonLexerPush, observe_bind]
  generalize observe LexerCall.isError
      (loop cfg chunk (2 * chunk.length + 1) (start lexer) : Program (LexerCall δ) _) = x
    at hloop
  obtain ⟨l, o⟩ := x
  rcases hr : (scanner (δ := δ) cfg).run ⟨lexer, base⟩ chunk with ⟨calls, code | s⟩
  · rw [hr] at hloop
    obtain ⟨hne, rfl, hrest⟩ := hloop
    exact ⟨hne, rfl, by simpa [hp₀] using hrest⟩
  · rw [hr] at hloop
    obtain ⟨hne, c', rfl, rfl, hdata, ht, hcut⟩ := hloop
    obtain ⟨m, ho, hm, hne'⟩ := flushEnd_delivers (δ := δ) base hdata ht
    simp only [hp₀, List.nil_append] at hcut
    simp only [followedBy_some, observe_bind, ho, observe_done, List.append_nil]
    exact ⟨by simpa [or_imp, forall_and] using ⟨hne, hne'⟩, rfl, by simp [hdata],
      by rw [cutAll_append, hm, hcut]⟩

end Embedjson
