import Embedjson.Foundations.Program

/-! Two programs that make corresponding calls whatever the answers are. -/

namespace Embedjson.Foundations.Program

variable {C D α α' β β' : Type} {R : C → D → Prop} {Q : α → β → Prop} {Q' : α' → β' → Prop}

def Matches (R : C → D → Prop) (Q : α → β → Prop) : Program C α → Program D β → Prop
  | done a, done b => Q a b
  | call c next, call d next' => R c d ∧ ∀ r, Matches R Q (next r) (next' r)
  | _, _ => False

lemma Matches.bind {p : Program C α} {q : Program D β} {k : α → Program C α'}
    {l : β → Program D β'} (h : Matches R Q p q)
    (hk : ∀ a b, Q a b → Matches R Q' (k a) (l b)) : Matches R Q' (p.bind k) (q.bind l) := by
  induction p generalizing q with
  | done a =>
    cases q with
    | done b => exact hk a b h
    | call d next' => exact h.elim
  | call c next ih =>
    cases q with
    | done b => exact h.elim
    | call d next' => exact ⟨h.1, fun r => ih r (h.2 r)⟩

lemma Matches.ite {p p' : Program C α} {q q' : Program D β} {s t : Prop} [Decidable s]
    [Decidable t] (hst : s ↔ t) (h : Matches R Q p q) (h' : Matches R Q p' q') :
    Matches R Q (if s then p else p') (if t then q else q') := by
  by_cases hs : s
  · rwa [if_pos hs, if_pos (hst.mp hs)]
  · rwa [if_neg hs, if_neg (mt hst.mpr hs)]

lemma Matches.returns {p : Program C α} {q : Program D β} (h : Matches R Q p q) :
    Returns (fun b => ∃ a, Q a b) q := by
  induction p generalizing q with
  | done a =>
    cases q with
    | done b => exact ⟨a, h⟩
    | call d next' => exact h.elim
  | call c next ih =>
    cases q with
    | done b => exact h.elim
    | call d next' => exact fun r => ih r (h.2 r)

variable {E : C → Bool} {F : D → Bool}

lemma Matches.observe {p : Program C α} {q : Program D β} (h : Matches R Q p q)
    (hR : ∀ c d, R c d → E c = F d) :
    List.Forall₂ R (observe E p).1 (observe F q).1 ∧
      Option.Rel Q (observe E p).2 (observe F q).2 := by
  induction p generalizing q with
  | done a =>
    cases q with
    | done b => exact ⟨.nil, .some h⟩
    | call d next' => exact h.elim
  | call c next ih =>
    cases q with
    | done b => exact h.elim
    | call d next' =>
      have hcd := hR c d h.1
      cases hE : E c with
      | true =>
        rw [observe_call_of_mem hE, observe_call_of_mem (hcd ▸ hE)]
        exact ⟨.cons h.1 .nil, .none⟩
      | false =>
        rw [observe_call_of_notMem hE, observe_call_of_notMem (hcd ▸ hE)]
        exact ⟨.cons h.1 (ih 0 (h.2 0)).1, (ih 0 (h.2 0)).2⟩

lemma observe_none {p : Program C α} (h : (observe E p).2 = none) :
    ∃ l c, (observe E p).1 = l ++ [c] ∧ E c = true ∧ ∀ d ∈ l, E d = false := by
  induction p with
  | done a => simp at h
  | call c next ih =>
    cases hE : E c with
    | true => exact ⟨[], c, by simp [observe_call_of_mem hE], hE, by simp⟩
    | false =>
      rw [observe_call_of_notMem hE] at h ⊢
      obtain ⟨l, d, hl, hd, hrest⟩ := ih 0 h
      exact ⟨c :: l, d, by simp [hl], hd, by simpa using ⟨hE, hrest⟩⟩

lemma observe_some {p : Program C α} {a : α} (h : (observe E p).2 = some a) :
    ∀ c ∈ (observe E p).1, E c = false := by
  induction p with
  | done a => simp
  | call c next ih =>
    cases hE : E c with
    | true => simp [observe_call_of_mem hE] at h
    | false =>
      rw [observe_call_of_notMem hE] at h ⊢
      simpa using ⟨hE, ih 0 h⟩

end Embedjson.Foundations.Program
