import Embedjson.Grammar.Soundness

/-! The automaton of one dialect on the serialisation of a value in another one: it accepts when the
dialects agree on the value and its stack is high enough. -/

namespace Embedjson

open Foundations Json

variable {δ : Type}

/-- A run that succeeds exactly when `good` holds. -/
structure Outcome (good : Prop) (r : List (UserCall δ) × Except Unit Conf) (us : List (UserCall δ))
    (Q : Conf → Prop) : Prop where
  accept : good → ∃ c, Q c ∧ r = (us, .ok c)
  reject : ¬good → ∃ os, r = (os, .error ())

namespace Outcome

variable {A : Automaton} {c c' : Conf} {g h : Prop} {xs ys : List (Lexeme δ)}
  {us vs : List (UserCall δ)} {Q R : Conf → Prop}

lemma congr {r : List (UserCall δ) × Except Unit Conf} (ho : Outcome g r us Q) (hg : g ↔ h)
    (hu : us = vs) (hQ : ∀ c, Q c → R c) : Outcome h r vs R := by
  subst hu
  refine ⟨fun hh => ?_, fun hh => ho.reject (mt hg.mp hh)⟩
  obtain ⟨c, hc, hr⟩ := ho.accept (hg.mpr hh)
  exact ⟨c, hQ c hc, hr⟩

lemma append (ho : Outcome g (A.machine.run c xs) us Q)
    (hn : g → ∀ c', Q c' → Outcome h (A.machine.run c' ys) vs R) :
    Outcome (g ∧ h) (A.machine.run c (xs ++ ys)) (us ++ vs) R := by
  refine ⟨fun hgh => ?_, fun hgh => ?_⟩
  · obtain ⟨c₁, hc₁, h₁⟩ := ho.accept hgh.1
    obtain ⟨c₂, hc₂, h₂⟩ := (hn hgh.1 c₁ hc₁).accept hgh.2
    exact ⟨c₂, hc₂, by rw [Transducer.run_append_ok _ h₁, h₂]⟩
  · by_cases hg : g
    · obtain ⟨c₁, hc₁, h₁⟩ := ho.accept hg
      obtain ⟨os, h₂⟩ := (hn hg c₁ hc₁).reject fun hh => hgh ⟨hg, hh⟩
      exact ⟨us ++ os, by rw [Transducer.run_append_ok _ h₁, h₂]⟩
    · obtain ⟨os, h₁⟩ := ho.reject hg
      exact ⟨os, Transducer.run_append_error _ h₁ ys⟩

lemma token {x : Lexeme δ} (hx : A.lexeme c x = some (us, c')) :
    Outcome True (A.machine.run c [x]) us (· = c') := by
  refine ⟨fun _ => ⟨c', rfl, ?_⟩, fun hn => absurd trivial hn⟩
  rw [Transducer.run_singleton, Automaton.machine_step_ok.mpr hx]

lemma reject_head {x : Lexeme δ} (hx : A.lexeme c x = none) (xs : List (Lexeme δ)) :
    Outcome False (A.machine.run c (x :: xs)) us Q :=
  ⟨False.elim, fun _ => ⟨[], Transducer.run_cons_error _ (Automaton.machine_step_error hx) xs⟩⟩

lemma openBracket (hlen : c.stack.length ≤ A.capacity) (hv : afterValue c.state ≠ none)
    {value : StackValue} {t : Tok} {u : UserCall δ} {s : ParserState}
    (ht : A.lexeme c (.tok t) = A.openValue c value u s) :
    Outcome (c.stack.length + 1 ≤ A.capacity) (A.machine.run c [.tok t]) [u]
      (· = ⟨s, value :: c.stack⟩) := by
  refine ⟨fun hroom => ?_, fun hfull => ?_⟩
  · have hx : A.lexeme c (.tok t) = some ([u], ⟨s, value :: c.stack⟩) := by
      rw [ht, Automaton.openValue, if_neg (not_or.mpr ⟨hv, by omega⟩)]
    exact (token hx).accept trivial
  · have hx : A.lexeme c (.tok t : Lexeme δ) = none := by
      rw [ht, Automaton.openValue, if_pos (.inr (by omega))]
    exact ⟨[], Transducer.run_cons_error _ (Automaton.machine_step_error hx) []⟩

end Outcome

def Dialect.automaton (d : Dialect) (capacity : ℕ) : Automaton := ⟨capacity, d.afterEmptyArray⟩

lemma Conf.Wf.afterValue_eq {c : Conf} (hc : c.Wf) (hv : Embedjson.afterValue c.state ≠ none) :
    Embedjson.afterValue c.state = some (resume .maybeObjectComma c.stack) := by
  obtain ⟨state, stack⟩ := c
  cases state with
  | expectValue =>
    obtain rfl : stack = [] := hc
    rfl
  | expectObjectValue | maybeArrayValue | expectArrayValue =>
    obtain ⟨rest, rfl⟩ : ∃ rest, stack = _ :: rest := hc
    rfl
  | _ => exact absurd rfl hv

lemma Conf.Wf.afterString_eq {c : Conf} (hc : c.Wf) (hv : Embedjson.afterValue c.state ≠ none) :
    Embedjson.afterString c.state = some (resume .maybeObjectComma c.stack) := by
  rw [← hc.afterValue_eq hv]
  obtain ⟨state, stack⟩ := c
  cases state <;> first | rfl | exact absurd rfl hv

section Runs

variable {d d' : Dialect} {cap : ℕ}

lemma outcome_scalar {c : Conf} (hlen : c.stack.length ≤ cap) {v : Json δ} {x : Lexeme δ}
    (hx : serialise d v = [x]) (hclean : Clean v) (hdepth : depth v = 0)
    (hempty : v.isEmptyArray = false)
    (hmove : (d'.automaton cap).lexeme c x =
      some (traversal v, ⟨resume .maybeObjectComma c.stack, c.stack⟩)) :
    Outcome ((d = d' ∨ Clean v) ∧ c.stack.length + depth v ≤ cap)
      ((d'.automaton cap).machine.run c (serialise d v)) (traversal v)
      (· = ⟨resume (if v.isEmptyArray then d'.afterEmptyArray else .maybeObjectComma) c.stack,
        c.stack⟩) := by
  rw [hx]
  refine (Outcome.token hmove).congr ?_ rfl ?_
  · simp [hclean, hdepth, hlen]
  · rintro _ rfl
    simp [hempty]

lemma lexeme_primitive {c : Conf} (hc : c.Wf) (hv : afterValue c.state ≠ none) (u : UserCall δ) :
    Automaton.primitive c u = some ([u], ⟨resume .maybeObjectComma c.stack, c.stack⟩) := by
  rw [Automaton.primitive, hc.afterValue_eq hv]
  rfl

lemma lexeme_closeObject {A : Automaton} {s : ParserState}
    (hs : s = .maybeObjectKey ∨ s = .maybeObjectComma) (rest : List StackValue) :
    A.lexeme ⟨s, .curly :: rest⟩ (.tok .closeCurlyBracket : Lexeme δ) =
      some ([.objectEnd], ⟨resume .maybeObjectComma rest, rest⟩) := by
  rcases hs with rfl | rfl <;> rfl

lemma lexeme_closeArray {A : Automaton} (rest : List StackValue) :
    A.lexeme ⟨.maybeArrayComma, .square :: rest⟩ (.tok .closeBracket : Lexeme δ) =
      some ([.arrayEnd], ⟨resume .maybeObjectComma rest, rest⟩) := rfl

/-- The separator behind a member that is not the last one. The dialects disagree on it behind an
empty array. -/
lemma run_separator {v : Json δ} {rest : List StackValue} {g : Prop} {ms : List (Text × Json δ)}
    {Q : Conf → Prop} (hms : ms ≠ [])
    (hnext : ∀ s, s = .maybeObjectKey ∨ s = .expectObjectKey →
      Outcome g ((d'.automaton cap).machine.run ⟨s, .curly :: rest⟩ (serialiseMembers d ms))
        (traverseMembers ms) Q) :
    Outcome ((d = d' ∨ v.isEmptyArray = false) ∧ g)
      ((d'.automaton cap).machine.run
        ⟨if v.isEmptyArray then d'.afterEmptyArray else .maybeObjectComma, .curly :: rest⟩
        (separator d v ++ serialiseMembers d ms)) (traverseMembers ms) Q := by
  have hcomma : Outcome True ((d'.automaton cap).machine.run ⟨.maybeObjectComma, .curly :: rest⟩
      [(.tok .comma : Lexeme δ)]) [] (· = ⟨.expectObjectKey, .curly :: rest⟩) := .token rfl
  have hkey := hcomma.append (by rintro - _ rfl; exact hnext .expectObjectKey (.inr rfl))
  have hdocumented : (separator .documented v : List (Lexeme δ)) = [.tok .comma] :=
    if_neg (by simp)
  cases hv : v.isEmptyArray with
  | false =>
    have hsep : (separator d v : List (Lexeme δ)) = [.tok .comma] := if_neg (by simp [hv])
    rw [hsep]
    exact hkey.congr (by simp) rfl fun _ h => h
  | true =>
    have himplemented : (separator .implemented v : List (Lexeme δ)) = [] := if_pos ⟨rfl, hv⟩
    obtain ⟨⟨k, w⟩, ms, rfl⟩ := List.exists_cons_of_ne_nil hms
    cases d <;> cases d'
    · rw [hdocumented]
      exact hkey.congr (by simp) rfl fun _ h => h
    · rw [hdocumented]
      exact (Outcome.reject_head rfl _).congr (by simp) rfl fun _ h => h
    · rw [himplemented]
      exact (Outcome.reject_head rfl _).congr (by simp) rfl fun _ h => h
    · rw [himplemented]
      exact (hnext .maybeObjectKey (.inl rfl)).congr (by simp) rfl fun _ h => h

mutual

theorem run_serialise : (v : Json δ) → (c : Conf) → c.Wf → afterValue c.state ≠ none →
    c.stack.length ≤ cap →
    Outcome ((d = d' ∨ Clean v) ∧ c.stack.length + depth v ≤ cap)
      ((d'.automaton cap).machine.run c (serialise d v)) (traversal v)
      (· = ⟨resume (if v.isEmptyArray then d'.afterEmptyArray else .maybeObjectComma) c.stack,
        c.stack⟩)
  | .null, c, hc, hv, hlen => outcome_scalar hlen rfl trivial rfl rfl (lexeme_primitive hc hv _)
  | .bool true, c, hc, hv, hlen =>
    outcome_scalar hlen rfl trivial rfl rfl (lexeme_primitive hc hv _)
  | .bool false, c, hc, hv, hlen =>
    outcome_scalar hlen rfl trivial rfl rfl (lexeme_primitive hc hv _)
  | .int _, c, hc, hv, hlen => outcome_scalar hlen rfl trivial rfl rfl (lexeme_primitive hc hv _)
  | .double _, c, hc, hv, hlen => outcome_scalar hlen rfl trivial rfl rfl (lexeme_primitive hc hv _)
  | .string text, c, hc, hv, hlen => by
    refine outcome_scalar hlen rfl trivial rfl rfl ?_
    rw [Automaton.lexeme, hc.afterString_eq hv]
    rfl
  | .array es, c, hc, hv, hlen => by
    have hopen := Outcome.openBracket (δ := δ) (A := d'.automaton cap) hlen hv (t := .openBracket) rfl
    by_cases hes : es = []
    · subst hes
      have hclose : Outcome True ((d'.automaton cap).machine.run
          ⟨.maybeArrayValue, .square :: c.stack⟩ [(.tok .closeBracket : Lexeme δ)]) [.arrayEnd]
          (· = ⟨resume d'.afterEmptyArray c.stack, c.stack⟩) := .token rfl
      refine (hopen.append (by rintro - _ rfl; exact hclose)).congr ?_ rfl fun _ h => h
      simp [Clean, CleanElements, depth, depthElements, Dialect.automaton]
    · have helems (hroom : c.stack.length + 1 ≤ cap) :=
        (run_serialiseElements es hes .maybeArrayValue (.inl rfl) c.stack hroom).append
          (by rintro - _ rfl; exact Outcome.token (lexeme_closeArray c.stack))
      refine (hopen.append (by rintro hroom _ rfl; exact helems hroom)).congr ?_ ?_ ?_
      · simp only [Clean, depth, and_true]
        change (c.stack.length + 1 ≤ cap ∧ _) ↔ _
        constructor
        · rintro ⟨-, h, hd⟩
          exact ⟨h, by omega⟩
        · rintro ⟨h, hd⟩
          exact ⟨by omega, h, by omega⟩
      · simp [traversal]
      · rintro _ rfl
        obtain ⟨v, es, rfl⟩ := List.exists_cons_of_ne_nil hes
        rfl
  | .object ms, c, hc, hv, hlen => by
    have hopen := Outcome.openBracket (δ := δ) (A := d'.automaton cap) hlen hv
      (t := .openCurlyBracket) rfl
    have hclose (c' : Conf) (hc' : c' = ⟨.maybeObjectKey, .curly :: c.stack⟩ ∨
        c' = ⟨.maybeObjectComma, .curly :: c.stack⟩) :
        Outcome True ((d'.automaton cap).machine.run c' [(.tok .closeCurlyBracket : Lexeme δ)])
          [.objectEnd]
          (· = ⟨resume .maybeObjectComma c.stack, c.stack⟩) := by
      rcases hc' with rfl | rfl
      · exact .token (lexeme_closeObject (.inl rfl) c.stack)
      · exact .token (lexeme_closeObject (.inr rfl) c.stack)
    by_cases hms : ms = []
    · subst hms
      refine (hopen.append fun _ c' hc' => hclose c' (.inl hc')).congr ?_ rfl fun _ h => h
      simp [Clean, CleanMembers, depth, depthMembers, Dialect.automaton]
    · have hmems (hroom : c.stack.length + 1 ≤ cap) :=
        (run_serialiseMembers ms hms .maybeObjectKey (.inl rfl) c.stack hroom).append
          fun _ c' hc' => hclose c' hc'
      refine (hopen.append (by rintro hroom _ rfl; exact hmems hroom)).congr ?_ ?_ fun _ h => h
      · simp only [Clean, depth, and_true]
        change (c.stack.length + 1 ≤ cap ∧ _) ↔ _
        constructor
        · rintro ⟨-, h, hd⟩
          exact ⟨h, by omega⟩
        · rintro ⟨h, hd⟩
          exact ⟨by omega, h, by omega⟩
      · simp [traversal]

theorem run_serialiseElements : (es : List (Json δ)) → es ≠ [] → (s : ParserState) →
    (s = .maybeArrayValue ∨ s = .expectArrayValue) → (rest : List StackValue) →
    rest.length + 1 ≤ cap →
    Outcome ((d = d' ∨ CleanElements es) ∧ rest.length + 1 + depthElements es ≤ cap)
      ((d'.automaton cap).machine.run ⟨s, .square :: rest⟩ (serialiseElements d es))
      (traverseElements es) (· = ⟨.maybeArrayComma, .square :: rest⟩)
  | [], hne, _, _, _, _ => absurd rfl hne
  | v :: es, _, s, hs, rest, hlen => by
    have hwf : Conf.Wf ⟨s, .square :: rest⟩ := by rcases hs with rfl | rfl <;> exact ⟨rest, rfl⟩
    have hav : afterValue s ≠ none := by rcases hs with rfl | rfl <;> nofun
    have hv := run_serialise v ⟨s, .square :: rest⟩ hwf hav hlen
    by_cases hes : es = []
    · subst hes
      rw [serialiseElements, List.isEmpty_nil, if_pos rfl, List.append_nil]
      refine hv.congr ?_ ?_ fun _ h => h
      · simp [CleanElements, depthElements]
      · simp [traverseElements]
    · have hcomma : Outcome True ((d'.automaton cap).machine.run
          ⟨.maybeArrayComma, .square :: rest⟩ [(.tok .comma : Lexeme δ)]) []
          (· = ⟨.expectArrayValue, .square :: rest⟩) := .token rfl
      have hrest := hcomma.append (by
        rintro - _ rfl
        exact run_serialiseElements es hes .expectArrayValue (.inr rfl) rest hlen)
      rw [serialiseElements, if_neg (by simpa using hes)]
      refine (hv.append (by rintro - _ rfl; exact hrest)).congr ?_ rfl fun _ h => h
      simp only [CleanElements, depthElements, List.length_cons, true_and]
      constructor
      · rintro ⟨⟨h₁, hd₁⟩, h₂, hd₂⟩
        exact ⟨by tauto, by omega⟩
      · rintro ⟨h, hd⟩
        exact ⟨⟨by tauto, by omega⟩, by tauto, by omega⟩

theorem run_serialiseMembers : (ms : List (Text × Json δ)) → ms ≠ [] → (s : ParserState) →
    (s = .maybeObjectKey ∨ s = .expectObjectKey) → (rest : List StackValue) →
    rest.length + 1 ≤ cap →
    Outcome ((d = d' ∨ CleanMembers ms) ∧ rest.length + 1 + depthMembers ms ≤ cap)
      ((d'.automaton cap).machine.run ⟨s, .curly :: rest⟩ (serialiseMembers d ms))
      (traverseMembers ms)
      (fun c => c = ⟨.maybeObjectKey, .curly :: rest⟩ ∨ c = ⟨.maybeObjectComma, .curly :: rest⟩)
  | [], hne, _, _, _, _ => absurd rfl hne
  | (k, v) :: ms, _, s, hs, rest, hlen => by
    have hkey : Outcome True ((d'.automaton cap).machine.run ⟨s, .curly :: rest⟩
        [(.string k : Lexeme δ)]) (textCalls k) (· = ⟨.expectColon, .curly :: rest⟩) := by
      rcases hs with rfl | rfl <;> exact .token rfl
    have hcolon : Outcome True ((d'.automaton cap).machine.run ⟨.expectColon, .curly :: rest⟩
        [(.tok .colon : Lexeme δ)]) [] (· = ⟨.expectObjectValue, .curly :: rest⟩) := .token rfl
    have hv := run_serialise v ⟨.expectObjectValue, .curly :: rest⟩ ⟨rest, rfl⟩ nofun hlen
    have hvalue := hcolon.append (by rintro - _ rfl; exact hv)
    have hmember := hkey.append (by rintro - _ rfl; exact hvalue)
    by_cases hms : ms = []
    · subst hms
      rw [serialiseMembers, List.isEmpty_nil, if_pos rfl, List.append_nil]
      refine hmember.congr ?_ ?_ ?_
      · simp [CleanMembers, depthMembers]
      · simp [traverseMembers]
      · rintro _ rfl
        cases v.isEmptyArray with
        | false => exact .inr rfl
        | true => cases d' <;> simp [resume, Dialect.afterEmptyArray]
    · have hrest := run_separator (v := v) hms fun s hs => run_serialiseMembers ms hms s hs rest hlen
      rw [serialiseMembers, if_neg (by simpa using hms)]
      refine (hmember.append (by rintro - _ rfl; exact hrest)).congr ?_ ?_ fun _ h => h
      · have hlast : (v.isEmptyArray = true → ms = []) ↔ v.isEmptyArray = false := by simp [hms]
        simp only [CleanMembers, depthMembers, List.length_cons, true_and, hlast]
        constructor
        · rintro ⟨⟨h₁, hd₁⟩, h₂, h₃, hd₃⟩
          exact ⟨by tauto, by omega⟩
        · rintro ⟨h, hd⟩
          exact ⟨⟨by tauto, by omega⟩, by tauto, by tauto, by omega⟩
      · simp [traverseMembers]

end

end Runs

end Embedjson
