import Mathlib.Data.List.Basic
import Mathlib.Tactic

/-! Deterministic transducers that emit a list of outputs for every letter and may reject it. -/

namespace Embedjson.Foundations

structure Transducer (S I O X : Type) where
  step : S → I → List O × Except X S

namespace Transducer

variable {S I O X : Type} (T : Transducer S I O X)

def run (s : S) : List I → List O × Except X S
  | [] => ([], .ok s)
  | x :: xs =>
    match T.step s x with
    | (os, .error e) => (os, .error e)
    | (os, .ok t) => (os ++ (run t xs).1, (run t xs).2)

@[simp] lemma run_nil (s : S) : T.run s [] = ([], .ok s) := rfl

lemma run_cons_ok {s t : S} {x : I} {os : List O} (h : T.step s x = (os, .ok t)) (xs : List I) :
    T.run s (x :: xs) = (os ++ (T.run t xs).1, (T.run t xs).2) := by
  simp [run, h]

lemma run_cons_error {s : S} {x : I} {os : List O} {e : X} (h : T.step s x = (os, .error e))
    (xs : List I) : T.run s (x :: xs) = (os, .error e) := by
  simp [run, h]

lemma run_cons_eq_ok {s u : S} {x : I} {xs : List I} {os : List O}
    (h : T.run s (x :: xs) = (os, .ok u)) :
    ∃ ps qs t, T.step s x = (ps, .ok t) ∧ T.run t xs = (qs, .ok u) ∧ os = ps ++ qs := by
  rcases hs : T.step s x with ⟨ps, e | t⟩
  · rw [T.run_cons_error hs] at h
    cases h
  · rw [T.run_cons_ok hs, Prod.mk.injEq] at h
    exact ⟨ps, _, t, rfl, Prod.ext rfl h.2, h.1.symm⟩

lemma mem_run_cons {s : S} {x : I} {xs : List I} {o : O} (h : o ∈ (T.step s x).1) :
    o ∈ (T.run s (x :: xs)).1 := by
  rcases hs : T.step s x with ⟨os, e | t⟩
  · rw [T.run_cons_error hs]
    rwa [hs] at h
  · rw [T.run_cons_ok hs]
    rw [hs] at h
    exact List.mem_append_left _ h

lemma run_cons_congr {s t : S} {x : I} (h : (T.step s x).2 = (T.step t x).2) (xs : List I) :
    (T.run s (x :: xs)).2 = (T.run t (x :: xs)).2 := by
  rcases hs : T.step s x with ⟨os, e | u⟩
  · rcases ht : T.step t x with ⟨ps, e' | v⟩
    · rw [hs, ht] at h
      rw [T.run_cons_error hs, T.run_cons_error ht]
      exact h
    · rw [hs, ht] at h
      cases h
  · rcases ht : T.step t x with ⟨ps, e' | v⟩
    · rw [hs, ht] at h
      cases h
    · rw [hs, ht] at h
      cases h
      rw [T.run_cons_ok hs, T.run_cons_ok ht]

lemma run_singleton (s : S) (x : I) : T.run s [x] = T.step s x := by
  rcases h : T.step s x with ⟨os, e | t⟩
  · rw [T.run_cons_error h]
  · simp [T.run_cons_ok h]

lemma run_append_ok {s t : S} {xs : List I} {os : List O} (h : T.run s xs = (os, .ok t))
    (ys : List I) : T.run s (xs ++ ys) = (os ++ (T.run t ys).1, (T.run t ys).2) := by
  induction xs generalizing s os with
  | nil =>
    simp only [run_nil, Prod.mk.injEq, Except.ok.injEq] at h
    obtain ⟨rfl, rfl⟩ := h
    simp
  | cons x xs ih =>
    rcases hs : T.step s x with ⟨ps, e | u⟩
    · simp [T.run_cons_error hs] at h
    · rw [T.run_cons_ok hs, Prod.mk.injEq] at h
      obtain ⟨rfl, hr⟩ := h
      rw [List.cons_append, T.run_cons_ok hs, ih (Prod.ext rfl hr)]
      simp

lemma run_append_error {s : S} {xs : List I} {os : List O} {e : X}
    (h : T.run s xs = (os, .error e)) (ys : List I) : T.run s (xs ++ ys) = (os, .error e) := by
  induction xs generalizing s os with
  | nil => simp at h
  | cons x xs ih =>
    rcases hs : T.step s x with ⟨ps, e' | u⟩
    · rw [T.run_cons_error hs] at h
      rw [List.cons_append, T.run_cons_error hs, h]
    · rw [T.run_cons_ok hs, Prod.mk.injEq] at h
      rw [List.cons_append, T.run_cons_ok hs, ih (Prod.ext rfl h.2), ← h.1]

lemma run_append_eq_ok {s u : S} {xs ys : List I} {os : List O}
    (h : T.run s (xs ++ ys) = (os, .ok u)) :
    ∃ ps qs t, T.run s xs = (ps, .ok t) ∧ T.run t ys = (qs, .ok u) ∧ os = ps ++ qs := by
  rcases hs : T.run s xs with ⟨ps, e | t⟩
  · rw [T.run_append_error hs] at h
    cases h
  · rw [T.run_append_ok hs, Prod.mk.injEq] at h
    exact ⟨ps, _, t, rfl, Prod.ext rfl h.2, h.1.symm⟩

lemma run_invariant {P : List I → List O → S → Prop} {s : S} (h₀ : P [] [] s)
    (hs : ∀ xs os t x ps u, P xs os t → T.step t x = (ps, .ok u) → P (xs ++ [x]) (os ++ ps) u)
    {xs : List I} {os : List O} {t : S} (h : T.run s xs = (os, .ok t)) : P xs os t := by
  induction xs using List.reverseRecOn generalizing os t with
  | nil =>
    simp only [run_nil, Prod.mk.injEq, Except.ok.injEq] at h
    obtain ⟨rfl, rfl⟩ := h
    exact h₀
  | append_singleton xs x ih =>
    rcases hr : T.run s xs with ⟨ps, e | u⟩
    · simp [T.run_append_error hr] at h
    · rw [T.run_append_ok hr, run_singleton, Prod.mk.injEq] at h
      obtain ⟨rfl, ht⟩ := h
      exact hs xs ps u x _ t (ih hr) (Prod.ext rfl ht)

lemma run_split_output {s : S} {xs : List I} {l m : List O} {o : O}
    (h : (T.run s xs).1 = l ++ o :: m) :
    ∃ ys x zs ps t qs rs, xs = ys ++ x :: zs ∧ T.run s ys = (ps, .ok t) ∧
      (T.step t x).1 = qs ++ o :: rs ∧ l = ps ++ qs ∧
      ∀ u, (T.step t x).2 = .ok u → m = rs ++ (T.run u zs).1 := by
  induction xs generalizing s l with
  | nil => simp at h
  | cons x xs ih =>
    rcases hs : T.step s x with ⟨os, e | u⟩
    · rw [T.run_cons_error hs] at h
      exact ⟨[], x, xs, [], s, l, m, rfl, rfl, by rw [hs]; exact h, rfl, by simp [hs]⟩
    · rw [T.run_cons_ok hs] at h
      rcases List.append_eq_append_iff.mp h with ⟨as, hl, hrest⟩ | ⟨bs, hos, hm⟩
      · obtain ⟨ys, y, zs, ps, t, qs, rs, rfl, hrun, hstep, rfl, hm⟩ := ih hrest
        refine ⟨x :: ys, y, zs, os ++ ps, t, qs, rs, rfl, ?_, hstep, ?_, hm⟩
        · rw [T.run_cons_ok hs, hrun]
        · rw [show l = _ from hl, List.append_assoc]
      · cases bs with
        | nil =>
          obtain ⟨ys, y, zs, ps, t, qs, rs, rfl, hrun, hstep, hl, hm⟩ := ih (l := []) hm.symm
          obtain ⟨rfl, rfl⟩ := List.append_eq_nil_iff.mp hl.symm
          refine ⟨x :: ys, y, zs, os ++ [], t, [], rs, rfl, ?_, hstep, ?_, hm⟩
          · rw [T.run_cons_ok hs, hrun]
          · simpa using hos.symm
        | cons o' rs =>
          obtain ⟨rfl, rfl⟩ := List.cons.inj hm
          refine ⟨[], x, xs, [], s, l, rs, rfl, rfl, by rw [hs]; exact hos, rfl, ?_⟩
          rintro v hv
          rw [hs] at hv
          cases hv
          rfl

section Composition

variable {P M : Type} (T : Transducer S I M X) (U : Transducer P M O X)

/-- Feed the outputs of every step of `T` to `U`. A rejection by `U` comes first. -/
def andThen : Transducer (S × P) I O X where
  step a x :=
    match U.run a.2 (T.step a.1 x).1 with
    | (os, .error e) => (os, .error e)
    | (os, .ok q) => (os, (T.step a.1 x).2.map fun t => (t, q))

lemma andThen_run_reject {s : S} {p : P} {xs : List I} {os : List O} {e : X}
    (h : U.run p (T.run s xs).1 = (os, .error e)) :
    (T.andThen U).run (s, p) xs = (os, .error e) := by
  induction xs generalizing s p os with
  | nil => simp at h
  | cons x xs ih =>
    rcases hs : T.step s x with ⟨ms, e' | t⟩
    · rw [T.run_cons_error hs] at h
      exact run_cons_error _ (by simp [andThen, hs, h]) xs
    · rw [T.run_cons_ok hs] at h
      rcases hu : U.run p ms with ⟨ps, e'' | q⟩
      · rw [U.run_append_error hu] at h
        exact run_cons_error _ (by simp [andThen, hs, hu, h]) xs
      · rw [U.run_append_ok hu, Prod.mk.injEq] at h
        have hstep : (T.andThen U).step (s, p) x = (ps, .ok (t, q)) := by
          simp [andThen, hs, hu, Except.map]
        rw [run_cons_ok _ hstep, ih (Prod.ext rfl h.2), h.1]

lemma andThen_run_accept {s : S} {p q : P} {xs : List I} {os : List O}
    (h : U.run p (T.run s xs).1 = (os, .ok q)) :
    (T.andThen U).run (s, p) xs = (os, (T.run s xs).2.map fun t => (t, q)) := by
  induction xs generalizing s p os with
  | nil =>
    simp only [run_nil, Prod.mk.injEq, Except.ok.injEq] at h
    obtain ⟨rfl, rfl⟩ := h
    rfl
  | cons x xs ih =>
    rcases hs : T.step s x with ⟨ms, e' | t⟩
    · rw [T.run_cons_error hs] at h ⊢
      exact run_cons_error _ (by simp [andThen, hs, h, Except.map]) xs
    · rw [T.run_cons_ok hs] at h ⊢
      rcases hu : U.run p ms with ⟨ps, e'' | r⟩
      · simp [U.run_append_error hu] at h
      · rw [U.run_append_ok hu, Prod.mk.injEq] at h
        have hstep : (T.andThen U).step (s, p) x = (ps, .ok (t, r)) := by
          simp [andThen, hs, hu, Except.map]
        rw [run_cons_ok _ hstep, ih (Prod.ext rfl h.2), h.1]

lemma andThen_run_eq_ok {s t : S} {p q : P} {xs : List I} {os : List O} :
    (T.andThen U).run (s, p) xs = (os, .ok (t, q)) ↔
      ∃ ms, T.run s xs = (ms, .ok t) ∧ U.run p ms = (os, .ok q) := by
  rcases hu : U.run p (T.run s xs).1 with ⟨ps, e | r⟩
  · rw [T.andThen_run_reject U hu]
    constructor
    · intro h
      cases h
    · rintro ⟨ms, ht, hu'⟩
      rw [ht] at hu
      cases hu.symm.trans hu'
  · rw [T.andThen_run_accept U hu]
    rcases ht : T.run s xs with ⟨ms, e | v⟩
    · simp [Except.map]
    · rw [ht] at hu
      simp only [Except.map, Prod.mk.injEq, Except.ok.injEq]
      constructor
      · rintro ⟨rfl, rfl, rfl⟩
        exact ⟨ms, ⟨rfl, rfl⟩, hu⟩
      · rintro ⟨_, ⟨rfl, rfl⟩, hu'⟩
        cases hu.symm.trans hu'
        exact ⟨rfl, rfl, rfl⟩

end Composition

end Transducer

end Embedjson.Foundations
