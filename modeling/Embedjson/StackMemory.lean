import Embedjson.DynamicDocuments
import Embedjson.ViablePrefixes

/-! The memory of a dynamic stack whose application answers every request with twice the capacity and
one byte more, as embedjson_lint.c does. -/

namespace Embedjson

open Foundations Foundations.Program

variable {δ : Type}

section Levels

def openStep (a : ℕ × List ℕ) : UserCall δ → ℕ × List ℕ
  | .objectBegin | .arrayBegin => (a.1 + 1, a.1 :: a.2)
  | .objectEnd | .arrayEnd => (a.1 - 1, a.2)
  | _ => a

def openSteps (us : List (UserCall δ)) : ℕ × List ℕ := us.foldl openStep (0, [])

lemma foldl_openStep_quiet (us : List (UserCall δ)) (a : ℕ × List ℕ) :
    (quiet us).foldl openStep a = us.foldl openStep a := by
  induction us generalizing a with
  | nil => rfl
  | cons u us ih =>
    cases u with
    | stackOverflow => exact ih a
    | _ => exact ih _

lemma foldl_openStep_map {f : UInt8 → UserCall δ} (hf : ∀ b a, openStep a (f b) = a)
    (bytes : List UInt8) (a : ℕ × List ℕ) : (bytes.map f).foldl openStep a = a := by
  induction bytes with
  | nil => rfl
  | cons b bytes ih => rw [List.map_cons, List.foldl_cons, hf, ih]

lemma foldl_openStep_view (us : List (UserCall δ)) (a : ℕ × List ℕ) :
    (view us).foldl openStep a = us.foldl openStep a := by
  induction us generalizing a with
  | nil => rfl
  | cons u us ih =>
    change (u.pieces ++ view us).foldl openStep a = us.foldl openStep (openStep a u)
    rw [List.foldl_append, ih]
    cases u with
    | stringChunk bytes | bignumChunk bytes =>
      rw [UserCall.pieces, foldl_openStep_map fun _ _ => rfl]
      rfl
    | _ => rfl

variable {cfg : Config} {A : Automaton} {c c' : Conf} {p q : Parser} {us : List (UserCall δ)}
  {f : LexerCall δ}

lemma openSteps_quiet (us : List (UserCall δ)) : openSteps (quiet us) = openSteps us :=
  foldl_openStep_quiet us (0, [])

lemma openSteps_view (us : List (UserCall δ)) : openSteps (view us) = openSteps us :=
  foldl_openStep_view us (0, [])

lemma countP_overflow_view (us : List (UserCall δ)) :
    (view us).countP UserCall.isOverflow = us.countP UserCall.isOverflow := by
  induction us with
  | nil => rfl
  | cons u us ih =>
    have hpieces : u.pieces.countP UserCall.isOverflow = [u].countP UserCall.isOverflow := by
      cases u with
      | stringChunk bytes | bignumChunk bytes =>
        exact List.countP_eq_zero.mpr (by simp [UserCall.pieces, UserCall.isOverflow])
      | _ => rfl
    change (u.pieces ++ view us).countP _ = ([u] ++ us).countP _
    rw [List.countP_append, List.countP_append, ih, hpieces]

lemma call_levels (hstate : p.state = c.state) (h : A.call c f = some (us, c')) (ls : List ℕ) :
    Opens p f ∧ us.foldl openStep (c.stack.length, ls) = (c'.stack.length, c.stack.length :: ls) ∧
        c'.stack.length = c.stack.length + 1 ∨
      ¬Opens p f ∧ us.foldl openStep (c.stack.length, ls) = (c'.stack.length, ls) ∧
        c'.stack.length ≤ c.stack.length := by
  have hprimitive {u : UserCall δ} (hu : ∀ a, openStep a u = a) (hopens : ¬Opens p f)
      (h : Automaton.primitive c u = some (us, c')) :
      ¬Opens p f ∧ us.foldl openStep (c.stack.length, ls) = (c'.stack.length, ls) ∧
        c'.stack.length ≤ c.stack.length := by
    obtain ⟨state, -, heq⟩ := Option.map_eq_some_iff.mp h
    cases heq
    exact ⟨hopens, hu _, le_rfl⟩
  cases f with
  | token t position =>
    cases t with
    | openCurlyBracket | openBracket =>
      obtain ⟨⟨state, hs⟩, -, rfl, rfl⟩ := Automaton.openValue_eq_some h
      refine .inl ⟨?_, rfl, rfl⟩
      simp [Opens, hstate, hs]
    | true | false | null => exact .inr (hprimitive (fun _ => rfl) id h)
    | closeCurlyBracket | closeBracket | comma | colon =>
      rw [Automaton.call, Automaton.token] at h
      cases hs : c.state <;> rw [hs] at h <;> cases h <;>
        exact .inr ⟨id, by simp [openStep], by simp⟩
  | tokenc data bytes =>
    cases h
    exact .inr ⟨id, rfl, le_rfl⟩
  | tokeni value position | tokenf value position => exact .inr (hprimitive (fun _ => rfl) id h)
  | tokencBegin position | tokencEnd position =>
    obtain ⟨state, -, heq⟩ := Option.map_eq_some_iff.mp h
    cases heq
    exact .inr ⟨id, rfl, le_rfl⟩
  | errorEx _ _ | tokenbnBegin _ _ | tokenbn _ _ | tokenbnEnd _ => cases h

end Levels

section Requests

/-- The sizes at which a stack of less than 31 bytes is full. -/
def fullSizes : List ℕ := [0, 8, 24, 56, 120]

/-- How often the stack asks for memory while containers open within `ls` other ones. The size 248 is
that of a full stack of 31 bytes, and it stands for a full one ever after. -/
def requests (ls : List ℕ) : ℕ := (fullSizes.filter (· ∈ ls)).length + ls.count 248

lemma requests_eq (ls : List ℕ) : requests ls = (if 0 ∈ ls then 1 else 0) +
    (if 8 ∈ ls then 1 else 0) + (if 24 ∈ ls then 1 else 0) + (if 56 ∈ ls then 1 else 0) +
    (if 120 ∈ ls then 1 else 0) + ls.count 248 := by
  simp only [requests, fullSizes, List.filter_cons, List.filter_nil, decide_eq_true_eq]
  split_ifs <;> rfl

structure Accounts (capacity : ℕ) (a : ℕ × List ℕ) : Prop where
  below : ∀ d < a.1, d ∈ a.2
  closed : ∀ d ∈ a.2, ∀ e < d, e ∈ a.2
  capacity : capacity + 1 = 2 ^ requests a.2

namespace Accounts

variable {n size : ℕ} {ls : List ℕ}

lemma le_of_notMem (h : Accounts n (size, ls)) {x : ℕ} (hx : x ∉ ls) : size ≤ x := by
  by_contra hlt
  exact hx (h.below x (by omega))

/-- With 120 the smaller sizes have been reached, and the capacity is 31 bytes or more. -/
lemma requests_large (h : Accounts n (size, ls)) (h120 : 120 ∈ ls) :
    requests (size :: ls) = if size = 8 * n % 2 ^ 8 then requests ls + 1 else requests ls := by
  have hbelow {x : ℕ} (hx : x < 120) : x ∈ ls := h.closed _ h120 x hx
  have hall : requests ls = 5 + ls.count 248 := by simp [requests_eq, h120, hbelow]
  have hnext : requests (size :: ls) = 5 + (size :: ls).count 248 := by
    simp [requests_eq, h120, hbelow]
  have hpos : 0 < 2 ^ ls.count 248 := Nat.two_pow_pos _
  have hcapacity : n + 1 = 2 ^ requests ls := h.capacity
  rw [hall, pow_add] at hcapacity
  have hfull : 8 * n % 2 ^ 8 = 248 := by omega
  rw [hall, hnext, hfull, List.count_cons]
  by_cases hsize : size = 248
  · rw [if_pos hsize, if_pos (beq_iff_eq.mpr hsize), add_assoc]
  · rw [if_neg hsize, if_neg (by simpa using hsize), add_zero]

/-- The number `k` of sizes that have been reached tells the capacity, and the next size to reach. -/
lemma requests_small (h : Accounts n (size, ls)) (h120 : 120 ∉ ls) :
    requests (size :: ls) = if size = 8 * n % 2 ^ 8 then requests ls + 1 else requests ls := by
  have hbelow {x y : ℕ} (hxy : x < y) (hy : y ∈ ls) : x ∈ ls := h.closed y hy x hxy
  have hcount : ls.count 248 = 0 :=
    List.count_eq_zero.mpr fun hmem => h120 (hbelow (by omega) hmem)
  obtain ⟨k, hk, h0, h8, h24, h56⟩ : ∃ k ≤ 4, (0 ∈ ls ↔ 0 < k) ∧ (8 ∈ ls ↔ 1 < k) ∧
      (24 ∈ ls ↔ 2 < k) ∧ (56 ∈ ls ↔ 3 < k) := by
    by_cases h56 : 56 ∈ ls
    · exact ⟨4, le_rfl, by simp [h56, hbelow _ h56]⟩
    by_cases h24 : 24 ∈ ls
    · exact ⟨3, by omega, by simp [h56, h24, hbelow _ h24]⟩
    by_cases h8 : 8 ∈ ls
    · exact ⟨2, by omega, by simp [h56, h24, h8, hbelow _ h8]⟩
    by_cases h0 : 0 ∈ ls
    · exact ⟨1, by omega, by simp [h56, h24, h8, h0]⟩
    · exact ⟨0, by omega, by simp [h56, h24, h8, h0]⟩
  have hreached : requests ls = k := by
    simp only [requests_eq, h0, h8, h24, h56, h120, hcount]
    interval_cases k <;> rfl
  have hsize : size ≤ 8 * (2 ^ k - 1) := by
    interval_cases k
    · exact h.le_of_notMem (x := 0) (by simp [h0])
    · exact h.le_of_notMem (x := 8) (by simp [h8])
    · exact h.le_of_notMem (x := 24) (by simp [h24])
    · exact h.le_of_notMem (x := 56) (by simp [h56])
    · exact h.le_of_notMem h120
  have hnext : requests (size :: ls) = (if 0 = size ∨ 0 < k then 1 else 0) +
      (if 8 = size ∨ 1 < k then 1 else 0) + (if 24 = size ∨ 2 < k then 1 else 0) +
      (if 56 = size ∨ 3 < k then 1 else 0) + (if 120 = size then 1 else 0) := by
    have hne : ¬size = 248 := by
      have hle := h.le_of_notMem h120
      omega
    simp [requests_eq, h0, h8, h24, h56, h120, hcount, hne]
  have hcapacity : n + 1 = 2 ^ requests ls := h.capacity
  rw [hreached] at hcapacity
  rw [hnext, hreached]
  interval_cases k <;> split_ifs <;> omega

lemma requests_cons (h : Accounts n (size, ls)) :
    requests (size :: ls) = if size = 8 * n % 2 ^ 8 then requests ls + 1 else requests ls := by
  by_cases h120 : 120 ∈ ls
  · exact h.requests_large h120
  · exact h.requests_small h120

lemma opens (h : Accounts n (size, ls)) :
    Accounts (if size = 8 * n % 2 ^ 8 then 2 * n + 1 else n) (size + 1, size :: ls) := by
  have hcapacity : n + 1 = 2 ^ requests ls := h.capacity
  refine ⟨fun d hd => ?_, fun d hd e he => ?_, ?_⟩
  · by_cases heq : d = size
    · exact heq ▸ List.mem_cons_self
    · exact List.mem_cons_of_mem _ (h.below d (Nat.lt_of_le_of_ne (Nat.le_of_lt_succ hd) heq))
  · rcases List.mem_cons.mp hd with rfl | hd
    · exact List.mem_cons_of_mem _ (h.below e he)
    · exact List.mem_cons_of_mem _ (h.closed d hd e he)
  · rw [h.requests_cons]
    split_ifs
    · rw [pow_succ]
      omega
    · exact hcapacity

lemma closes (h : Accounts n (size, ls)) {size' : ℕ} (hle : size' ≤ size) : Accounts n (size', ls) :=
  ⟨fun d hd => h.below d (lt_of_lt_of_le hd hle), h.closed, h.capacity⟩

end Accounts

/-- The parser has opened and asked for memory as the callbacks tell. -/
structure Accounted (p : Parser) (history : List (UserCall δ)) : Prop where
  size : (openSteps history).1 = p.stackSize
  accounts : Accounts p.stackCapacity (openSteps history)
  asked : history.countP UserCall.isOverflow = requests (openSteps history).2

variable (δ) in
lemma accounted_zero (cfg : Config) : Accounted (.zero cfg) ([] : List (UserCall δ)) :=
  ⟨rfl, ⟨by simp [openSteps], by simp [openSteps], rfl⟩, rfl⟩

end Requests

section Steps

variable {cfg : Config} {p q : Parser} {f : LexerCall δ} {os : List (UserCall δ)}

lemma opens_full (hdynamic : cfg.dynamicStack = true) (hopens : Opens p f)
    (hfull : stackFull cfg p = true) (hstep : parserStep cfg p f = (os, .ok q)) :
    q.stackCapacity = p.stackCapacity + (cfg.growth p.stackCapacity).length ∧
      ∃ u, os = [.stackOverflow, u] := by
  obtain ⟨value, u, state, heq, -⟩ := onLexerCall_opens cfg [] hopens
  obtain ⟨r, ho⟩ := observe_of_parserStep hstep
  rw [heq, openContainer, stackPush, if_pos hfull, if_pos hdynamic] at ho
  change observe UserCall.isError (.call .stackOverflow fun _ => _) = _ at ho
  rw [observe_call_of_notMem rfl] at ho
  change (_ :: (observe UserCall.isError ((pushBit (grow cfg p) value).returnIf u
      (succeed { pushBit (grow cfg p) value with state := state }))).1, (observe UserCall.isError
        ((pushBit (grow cfg p) value).returnIf u (succeed { pushBit (grow cfg p) value with
          state := state }))).2) = _ at ho
  cases hu : u.isError with
  | true =>
    rw [Parser.returnIf, observe_call_of_mem hu] at ho
    cases ho
  | false =>
    rw [Parser.returnIf, observe_call_of_notMem hu, if_neg (not_not_intro rfl)] at ho
    cases ho
    exact ⟨rfl, u, rfl⟩

end Steps

section Runs

variable [DoubleArith δ] {cfg : Config} {chunks : List (List UInt8)} {us : List (UserCall δ)}
  {p : Parser} {answer : List (UserCall δ) → UserCall δ → ℤ}

variable (hdebug : cfg.debug = false) (hdynamic : cfg.dynamicStack = true)
  (hdouble : ∀ n, (cfg.growth n).length = n + 1)

include hdynamic hdouble

omit [DoubleArith δ] in
lemma Accounted.step {A : Automaton} {c c' : Conf} {q : Parser} {f : LexerCall δ}
    {os history : List (UserCall δ)} (h : Accounted p history) (hp : Embodies p c)
    (hq : Embodies q c') (hcall : A.call c f = some (quiet os, c'))
    (hstep : parserStep cfg p f = (os, .ok q)) : Accounted q (history ++ os) := by
  obtain ⟨hsize, haccounts, hasked⟩ := h
  have hsplit : openSteps history = (c.stack.length, (openSteps history).2) :=
    Prod.ext (hsize.trans hp.length.symm) rfl
  have hgrows := parserStep_grows hstep
  have hfull : stackFull cfg p = true ↔ c.stack.length = 8 * p.stackCapacity % 2 ^ 8 := by
    rw [stackFull_dynamic hdynamic, hp.length, decide_eq_true_eq]
  have hquiet (hroom : ¬(Opens p f ∧ stackFull cfg p = true)) :
      q.stackCapacity = p.stackCapacity ∧ os.countP UserCall.isOverflow = 0 := by
    refine ⟨hgrows.capacity.resolve_right fun h => hroom ⟨h.1, h.2.1⟩, ?_⟩
    exact List.countP_eq_zero.mpr fun u hu => by simp [parserStep_quiet hstep hroom u hu]
  have hlevels := call_levels hp.state hcall (openSteps history).2
  rw [← hsplit, foldl_openStep_quiet] at hlevels
  rw [hsplit] at haccounts
  have happend : openSteps (history ++ os) = os.foldl openStep (openSteps history) := List.foldl_append
  rcases hlevels with ⟨hopens, heq, hnext⟩ | ⟨hopens, heq, hnext⟩
  · have hcapacity := haccounts.opens
    have hrequests := haccounts.requests_cons
    rw [← hnext] at hcapacity
    by_cases hlength : c.stack.length = 8 * p.stackCapacity % 2 ^ 8
    · obtain ⟨hgrown, u, rfl⟩ := opens_full hdynamic hopens (hfull.mpr hlength) hstep
      have hvisible : u.isOverflow = false := by
        cases u with
        | stackOverflow => exact absurd (congrArg Prod.snd heq).symm (List.cons_ne_self _ _)
        | _ => rfl
      rw [if_pos hlength] at hcapacity hrequests
      rw [hdouble, ← add_assoc, ← two_mul] at hgrown
      refine ⟨?_, ?_, ?_⟩
      · rw [happend, heq, hq.length]
      · rw [happend, heq, hgrown]
        exact hcapacity
      · rw [happend, heq, hrequests, ← hasked, List.countP_append, List.countP_cons_of_pos rfl,
          List.countP_cons_of_neg (by simp [hvisible]), List.countP_nil]
    · obtain ⟨hkept, hcount⟩ := hquiet fun h => hlength (hfull.mp h.2)
      rw [if_neg hlength] at hcapacity hrequests
      refine ⟨?_, ?_, ?_⟩
      · rw [happend, heq, hq.length]
      · rw [happend, heq, hkept]
        exact hcapacity
      · rw [happend, heq, hrequests, ← hasked, List.countP_append, hcount, add_zero]
  · obtain ⟨hkept, hcount⟩ := hquiet fun h => hopens h.1
    refine ⟨?_, ?_, ?_⟩
    · rw [happend, heq, hq.length]
    · rw [happend, heq, hkept]
      exact haccounts.closes hnext
    · rw [happend, heq, ← hasked, List.countP_append, hcount, add_zero]

variable (hbignum : cfg.bignum = false)

include hdebug hbignum

/-- The requests for memory of pushes that succeed and leave no access outside of the stack, and its
capacity behind them. The stack doubles whenever a container opens within 248 other ones. -/
theorem capacity_eq_requests (hA : Accepting UserCall.isError answer)
    (hpush : run answer (pushAll cfg (.zero cfg) chunks) [] = (us, 0, p)) (hp : ¬Ruined p) :
    us.countP UserCall.isOverflow = requests (openSteps us).2 ∧
      p.stackCapacity + 1 = 2 ^ requests (openSteps us).2 := by
  obtain ⟨calls, os, t, hscan, hparser, -, hview⟩ := reached hdebug
    (((pushAll_relaysCode (.zero cfg) chunks).run_eq_iff hA [] rfl).mp hpush)
  have hgrowth (n : ℕ) : cfg.growth n ≠ [] := by
    have hlength := hdouble n
    exact List.ne_nil_of_length_pos (by omega)
  have hordered := scanner_run_ordered (δ := δ) hbignum (s := ⟨.zero, 0⟩) nofun chunks.flatten
  rw [hscan] at hordered
  obtain ⟨b, hphase, -⟩ := hordered
  obtain ⟨-, -, -, hdone⟩ := (embodies_zero hdynamic).run_sound hdynamic hgrowth
    (A := Dialect.implemented.automaton (2 ^ 64)) (P := Accounted) rfl
    (fun h => h.step hdynamic hdouble) rfl hphase nofun hparser hp
    [] (accounted_zero δ cfg)
  rw [← openSteps_view us, ← countP_overflow_view us, hview, openSteps_view, countP_overflow_view]
  exact ⟨hdone.asked, hdone.accounts.capacity⟩

end Runs

-- Three arrays side by side within 248 others.
example : requests (248 :: 248 :: 248 :: List.range 248) = 8 := by decide +kernel

/-- The text `[[[[[[[[[],[`. The stack is full when the ninth array opens, and not for the one beside
it. -/
theorem capacity_eq_requests_ninth :
    (run (accept UserCall.isError) (pushAll (δ := ℚ) .dynamic (.zero .dynamic)
        [List.replicate 9 91, [93, 44, 91]]) []).1.countP UserCall.isOverflow = 2 ∧
      (run (accept UserCall.isError) (pushAll (δ := ℚ) .dynamic (.zero .dynamic)
        [List.replicate 9 91, [93, 44, 91]]) []).2.2.stackCapacity + 1 = 2 ^ 2 := by
  have hdouble (n : ℕ) : (Config.dynamic.growth n).length = n + 1 := List.length_replicate
  have hpush : run (accept UserCall.isError) (pushAll (δ := ℚ) .dynamic (.zero .dynamic)
      [List.replicate 9 91, [93, 44, 91]]) [] =
        (.stackOverflow :: List.replicate 8 .arrayBegin ++
          [.stackOverflow, .arrayBegin, .arrayEnd, .arrayBegin], 0, _) := rfl
  refine capacity_eq_requests rfl rfl hdouble rfl (accepting_accept _) hpush ?_
  rintro (hbroken | hlarge)
  · cases hbroken
  · exact absurd hlarge (by decide)

end Embedjson
