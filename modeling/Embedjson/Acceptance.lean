import Embedjson.Grammar.Traversal
import Embedjson.Parser.Documents

namespace Embedjson

open Foundations Foundations.Program Json

variable {δ : Type}

/-- Every call returned zero and the parser has seen a whole document. -/
def Accepted (x : List (UserCall δ) × ℤ × Parser) : Prop := x.2.1 = 0 ∧ x.2.2.state = .done

/-- A run on the tokens `ts` accepts the serialisation of exactly one value of limited depth and
nothing else, and its callbacks traverse that value. -/
def AcceptsGrammar (ts : List (Lexeme δ)) (x : List (UserCall δ) × ℤ × Parser) : Prop :=
  (Accepted x ↔ ∃! v : Json δ, ts = serialise .documented v ∧ depth v ≤ 128) ∧
    ∀ v : Json δ, ts = serialise .documented v → depth v ≤ 128 → x.1 = traversal v

section Automaton

variable {d d' : Dialect} {cap : ℕ} {v : Json δ}

lemma run_serialise_zero (d d' : Dialect) (cap : ℕ) (v : Json δ) :
    Outcome ((d = d' ∨ Clean v) ∧ depth v ≤ cap)
      ((d'.automaton cap).machine.run .zero (serialise d v)) (traversal v) (·.state = .done) :=
  (run_serialise v .zero rfl nofun (Nat.zero_le cap)).congr (by simp [Conf.zero]) rfl
    (by rintro _ rfl; rfl)

lemma serialise_clean (h : Clean v) : serialise .documented v = serialise .implemented v := by
  obtain ⟨c, hc, hr⟩ := (run_serialise_zero .documented .implemented (depth v) v).accept
    ⟨.inr h, le_rfl⟩
  obtain ⟨w, hw, hv⟩ := sound (A := Dialect.implemented.automaton (depth v)) (d := .implemented)
    rfl hr hc
  rw [hw, traversal_injective hv]

lemma run_done_iff {ts : List (Lexeme δ)} {us : List (UserCall δ)} :
    (∃ c, (d.automaton cap).machine.run .zero ts = (us, .ok c) ∧ c.state = .done) ↔
      ∃ v, ts = serialise d v ∧ depth v ≤ cap ∧ us = traversal v := by
  constructor
  · rintro ⟨c, hr, hc⟩
    obtain ⟨v, rfl, rfl⟩ := sound (A := d.automaton cap) (d := d) rfl hr hc
    refine ⟨v, rfl, ?_, rfl⟩
    by_contra hdepth
    obtain ⟨os, ho⟩ := (run_serialise_zero d d cap v).reject fun h => hdepth h.2
    rw [ho] at hr
    cases hr
  · rintro ⟨v, rfl, hdepth, rfl⟩
    obtain ⟨c, hc, hr⟩ := (run_serialise_zero d d cap v).accept ⟨.inl rfl, hdepth⟩
    exact ⟨c, hr, hc⟩

end Automaton

section Runs

variable {answer : List (UserCall δ) → UserCall δ → ℤ} (hA : Accepting UserCall.isError answer)
  {calls : List (LexerCall δ)} {ts : List (Lexeme δ)}
  (hcalls : calls.map LexerCall.forget = ts.flatMap Lexeme.calls)

include hA hcalls

lemma accepted_iff_run :
    (Accepted (run answer (drive .default (.zero .default) calls) []) ↔ ∃ us c,
      (Dialect.implemented.automaton 128).machine.run .zero ts = (us, .ok c) ∧ c.state = .done) ∧
    ∀ us c, (Dialect.implemented.automaton 128).machine.run .zero ts = (us, .ok c) →
      (run answer (drive .default (.zero .default) calls) []).1 = us := by
  obtain ⟨h₁, h₂, h₃⟩ := (drive_relaysCode .default (.zero .default) calls).run_accepting
    hA []
  have hrun := run_lexemes_follows .default (represents_zero _ rfl) rfl rfl hcalls
  rw [observe_drive] at h₁ h₂ h₃
  rw [show Config.default.automaton = Dialect.implemented.automaton 128 from rfl] at hrun
  rcases hm : (Dialect.implemented.automaton 128).machine.run .zero ts with ⟨us, e | c⟩
  · rw [hm] at hrun
    obtain ⟨os, code, hp⟩ := hrun
    rw [hp] at h₃
    refine ⟨⟨fun h => absurd h.1 (h₃ rfl), ?_⟩, ?_⟩
    · rintro ⟨us, c, h, -⟩
      cases h
    · rintro us c h
      cases h
  · rw [hm] at hrun
    obtain ⟨p, hp, hr, -⟩ := hrun
    rw [hp] at h₁ h₂
    have hlast := h₂ _ rfl
    refine ⟨⟨fun h => ⟨us, c, rfl, ?_⟩, ?_⟩, ?_⟩
    · rw [Accepted, hlast] at h
      exact hr.state ▸ h.2
    · rintro ⟨us', c', h, hc⟩
      cases h
      exact ⟨congrArg Prod.fst hlast, by rw [hlast, hr.state, hc]⟩
    · rintro us' c' h
      cases h
      exact h₁

lemma accepted_iff :
    Accepted (run answer (drive .default (.zero .default) calls) []) ↔
      ∃ v, ts = serialise .implemented v ∧ depth v ≤ 128 ∧
        (run answer (drive .default (.zero .default) calls) []).1 = traversal v := by
  obtain ⟨hiff, hevents⟩ := accepted_iff_run hA hcalls
  rw [hiff]
  constructor
  · rintro ⟨us, c, hr, hc⟩
    obtain ⟨v, hv, hd, hus⟩ := run_done_iff.mp ⟨c, hr, hc⟩
    exact ⟨v, hv, hd, (hevents us c hr).trans hus⟩
  · rintro ⟨v, hv, hd, -⟩
    obtain ⟨c, hr, hc⟩ := run_done_iff.mpr ⟨v, hv, hd, rfl⟩
    exact ⟨_, c, hr, hc⟩

lemma not_accepted {v : Json δ} (hts : ts = serialise .documented v) (hv : ¬Clean v) :
    ¬Accepted (run answer (drive .default (.zero .default) calls) []) := by
  intro h
  obtain ⟨us, c, hr, hc⟩ := (accepted_iff_run hA hcalls).1.mp h
  obtain ⟨os, ho⟩ := (run_serialise_zero .documented .implemented 128 v).reject
    fun h => hv (h.1.resolve_left nofun)
  rw [hts, ho] at hr
  cases hr

/-- The parser follows the grammar except for the values that have an empty array as a member in
front of another member. -/
theorem accepts_grammar_iff :
    AcceptsGrammar ts (run answer (drive .default (.zero .default) calls) []) ↔
      ¬∃ v : Json δ, depth v ≤ 128 ∧ ¬Clean v ∧
        (ts = serialise .documented v ∨ ts = serialise .implemented v) := by
  have hiff := accepted_iff hA hcalls
  constructor
  · rintro ⟨hgrammar, hevents⟩ ⟨v, hd, hv, hts | hts⟩
    · exact not_accepted hA hcalls hts hv
        (hgrammar.mpr ⟨v, ⟨hts, hd⟩, fun w hw => serialise_injective (hw.1.symm.trans hts)⟩)
    · obtain ⟨c, hc, hr⟩ := (run_serialise_zero .implemented .implemented 128 v).accept
        ⟨.inl rfl, hd⟩
      rw [← hts] at hr
      obtain ⟨hrun, hcallbacks⟩ := accepted_iff_run hA hcalls
      have hx := hrun.mpr ⟨_, c, hr, hc⟩
      obtain ⟨w, ⟨hw, hwd⟩, -⟩ := hgrammar.mp hx
      have hvw : traversal w = traversal v := (hevents w hw hwd).symm.trans (hcallbacks _ c hr)
      obtain rfl : w = v := traversal_injective hvw
      exact not_accepted hA hcalls hw hv hx
  · intro hnone
    have hclean (v : Json δ) (hd : depth v ≤ 128)
        (hts : ts = serialise .documented v ∨ ts = serialise .implemented v) : Clean v := by
      by_contra hv
      exact hnone ⟨v, hd, hv, hts⟩
    have hdoc (v : Json δ) (hd : depth v ≤ 128) (hts : ts = serialise .documented v) :
        Accepted (run answer (drive .default (.zero .default) calls) []) ∧
          (run answer (drive .default (.zero .default) calls) []).1 = traversal v := by
      have hts' := hts.trans (serialise_clean (hclean v hd (.inl hts)))
      obtain ⟨c, hc, hr⟩ := (run_serialise_zero .implemented .implemented 128 v).accept
        ⟨.inl rfl, hd⟩
      rw [← hts'] at hr
      obtain ⟨hrun, hevents⟩ := accepted_iff_run hA hcalls
      exact ⟨hrun.mpr ⟨_, c, hr, hc⟩, hevents _ c hr⟩
    refine ⟨⟨fun h => ?_, ?_⟩, fun v hts hd => (hdoc v hd hts).2⟩
    · obtain ⟨v, hts, hd, -⟩ := hiff.mp h
      have hts' := hts.trans (serialise_clean (hclean v hd (.inr hts))).symm
      exact ⟨v, ⟨hts', hd⟩, fun w hw => serialise_injective (hw.1.symm.trans hts')⟩
    · rintro ⟨v, ⟨hts, hd⟩, -⟩
      exact (hdoc v hd hts).1

end Runs

def nestedDocument : Json ℚ :=
  .object [([[97]], .array [.object [], .int 7]), ([[98]], .array [])]

theorem accepts_grammar_iff_nested :
    AcceptsGrammar (serialise .documented nestedDocument) (run (accept UserCall.isError)
      (drive .default (.zero .default) ((serialise .documented nestedDocument).flatMap Lexeme.calls))
        []) := by
  have hclean : Clean nestedDocument := by
    simp [nestedDocument, Clean, CleanElements, CleanMembers, isEmptyArray]
  refine (accepts_grammar_iff (accepting_accept _) rfl).mpr ?_
  rintro ⟨v, -, hv, hts | hts⟩
  · obtain rfl := serialise_injective hts
    exact hv hclean
  · rw [serialise_clean hclean] at hts
    obtain rfl := serialise_injective hts
    exact hv hclean

/-- The tokens of `{"a":[],"b":null}`. -/
def memberAfterEmptyArray : List (Lexeme ℚ) :=
  serialise .documented (.object [([[97]], .array []), ([[98]], .null)])

theorem member_after_empty_array_refused :
    ¬AcceptsGrammar memberAfterEmptyArray (run (accept UserCall.isError)
      (drive .default (.zero .default) (memberAfterEmptyArray.flatMap Lexeme.calls)) []) := by
  intro h
  have hx := h.1.mpr ⟨_, ⟨rfl, by decide⟩, fun w hw => serialise_injective hw.1.symm⟩
  exact absurd hx.1 (by decide)

end Embedjson
