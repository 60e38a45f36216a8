import Mathlib.Data.List.Basic
import Mathlib.Tactic

/-! Lists in which neighbours may be merged, up to the way they were cut. -/

namespace Embedjson.Foundations

structure Joining (C : Type) where
  merge : C → C → Option C
  assoc : ∀ a b c e, merge a b = some e →
    (merge b c = none ∧ merge e c = none) ∨
      ∃ f g, merge b c = some f ∧ merge a f = some g ∧ merge e c = some g

namespace Joining

variable {C : Type} (J : Joining C)

def prepend (c : C) : List C → List C
  | [] => [c]
  | d :: l =>
    match J.merge c d with
    | some e => e :: l
    | none => c :: d :: l

def join : List C → List C
  | [] => []
  | c :: l => J.prepend c (join l)

@[simp] lemma join_nil : J.join [] = [] := rfl

lemma join_cons (c : C) (l : List C) : J.join (c :: l) = J.prepend c (J.join l) := rfl

variable {J}

lemma prepend_prepend {a b e : C} (h : J.merge a b = some e) (l : List C) :
    J.prepend a (J.prepend b l) = J.prepend e l := by
  cases l with
  | nil => simp [prepend, h]
  | cons c l =>
    rcases J.assoc a b c e h with ⟨hb, he⟩ | ⟨f, g, hb, ha, he⟩
    · simp [prepend, hb, he, h]
    · simp [prepend, hb, ha, he]

lemma join_flatMap {cut : C → List C} {l : List C}
    (hcut : ∀ c ∈ l, ∀ m, J.join (cut c ++ m) = J.join (c :: m)) :
    J.join (l.flatMap cut) = J.join l := by
  induction l with
  | nil => rfl
  | cons c l ih =>
    rw [List.flatMap_cons, hcut c (by simp), join_cons, join_cons,
      ih fun d hd => hcut d (by simp [hd])]

lemma join_letters {A : Type} (text : List A → C)
    (hmerge : ∀ s t, J.merge (text s) (text t) = some (text (s ++ t))) (a : A) (as : List A)
    (m : List C) : J.join ((a :: as).map (fun x => text [x]) ++ m) = J.join (text (a :: as) :: m) := by
  induction as generalizing a with
  | nil => rfl
  | cons b as ih =>
    rw [List.map_cons, List.cons_append, join_cons, ih b, join_cons, prepend_prepend (hmerge _ _)]
    rfl

end Joining

end Embedjson.Foundations
