import Embedjson.Grammar.Completeness

namespace Embedjson

open Foundations Json

variable {δ : Type}

lemma textCalls_prefix_free {k l : Text} {r s : List (UserCall δ)}
    (h : textCalls k ++ r = textCalls l ++ s) : k = l ∧ r = s := by
  simp only [textCalls, List.cons_append, List.append_assoc, List.cons.injEq, true_and] at h
  induction k generalizing l with
  | nil =>
    cases l with
    | nil => simpa using h
    | cons c l => simp at h
  | cons b k ih =>
    cases l with
    | nil => simp at h
    | cons c l =>
      simp only [List.map_cons, List.cons_append, List.cons.injEq, UserCall.stringChunk.injEq] at h
      obtain ⟨rfl, h⟩ := h
      obtain ⟨rfl, rfl⟩ := ih h
      exact ⟨rfl, rfl⟩

lemma traversal_ne_arrayEnd (v : Json δ) (r s : List (UserCall δ)) :
    traversal v ++ r ≠ .arrayEnd :: s := by
  cases v <;> simp [traversal, textCalls]

mutual

theorem traversal_prefix_free : (v w : Json δ) → {r s : List (UserCall δ)} →
    traversal v ++ r = traversal w ++ s → v = w ∧ r = s
  | .array es, w, r, s, h => by
    cases w with
    | array fs =>
      simp only [traversal, List.cons_append, List.append_assoc, List.cons.injEq, true_and,
        List.nil_append] at h
      obtain ⟨rfl, rfl⟩ := traverseElements_prefix_free es fs h
      exact ⟨rfl, rfl⟩
    | _ => simp [traversal, textCalls] at h
  | .object ms, w, r, s, h => by
    cases w with
    | object ns =>
      simp only [traversal, List.cons_append, List.append_assoc, List.cons.injEq, true_and,
        List.nil_append] at h
      obtain ⟨rfl, rfl⟩ := traverseMembers_prefix_free ms ns h
      exact ⟨rfl, rfl⟩
    | _ => simp [traversal, textCalls] at h
  | .string k, w, r, s, h => by
    cases w with
    | string l =>
      obtain ⟨rfl, rfl⟩ := textCalls_prefix_free h
      exact ⟨rfl, rfl⟩
    | _ => simp [traversal, textCalls] at h
  | .null, w, r, s, h => by cases w <;> simp [traversal, textCalls] at h ⊢; exact h
  | .bool b, w, r, s, h => by cases w <;> simp [traversal, textCalls] at h ⊢; exact h
  | .int b, w, r, s, h => by cases w <;> simp [traversal, textCalls] at h ⊢; exact h
  | .double b, w, r, s, h => by cases w <;> simp [traversal, textCalls] at h ⊢; exact h

theorem traverseElements_prefix_free : (es fs : List (Json δ)) → {r s : List (UserCall δ)} →
    traverseElements es ++ .arrayEnd :: r = traverseElements fs ++ .arrayEnd :: s → es = fs ∧ r = s
  | [], [], _, _, h => by simpa [traverseElements] using h
  | [], w :: fs, r, s, h => by
    rw [traverseElements, traverseElements, List.append_assoc] at h
    exact absurd h.symm (traversal_ne_arrayEnd w _ _)
  | v :: es, [], r, s, h => by
    rw [traverseElements, traverseElements, List.append_assoc] at h
    exact absurd h (traversal_ne_arrayEnd v _ _)
  | v :: es, w :: fs, r, s, h => by
    rw [traverseElements, traverseElements, List.append_assoc, List.append_assoc] at h
    obtain ⟨rfl, hes⟩ := traversal_prefix_free v w h
    obtain ⟨rfl, rfl⟩ := traverseElements_prefix_free es fs hes
    exact ⟨rfl, rfl⟩

theorem traverseMembers_prefix_free : (ms ns : List (Text × Json δ)) → {r s : List (UserCall δ)} →
    traverseMembers ms ++ .objectEnd :: r = traverseMembers ns ++ .objectEnd :: s → ms = ns ∧ r = s
  | [], [], _, _, h => by simpa [traverseMembers] using h
  | [], (l, w) :: ns, r, s, h => by simp [traverseMembers, textCalls] at h
  | (k, v) :: ms, [], r, s, h => by simp [traverseMembers, textCalls] at h
  | (k, v) :: ms, (l, w) :: ns, r, s, h => by
    simp only [traverseMembers, List.append_assoc] at h
    obtain ⟨rfl, hmember⟩ := textCalls_prefix_free h
    obtain ⟨rfl, hms⟩ := traversal_prefix_free v w hmember
    obtain ⟨rfl, rfl⟩ := traverseMembers_prefix_free ms ns hms
    exact ⟨rfl, rfl⟩

end

theorem traversal_injective {v w : Json δ} (h : traversal v = traversal w) : v = w :=
  (traversal_prefix_free v w (r := []) (s := []) (by rw [h])).1

theorem serialise_injective {d : Dialect} {v w : Json δ} (h : serialise d v = serialise d w) :
    v = w := by
  let cap := max (depth v) (depth w)
  have hrun (u : Json δ) (hu : depth u ≤ cap) :
      ∃ c, ((d.automaton cap).machine.run .zero (serialise d u)) = (traversal u, .ok c) := by
    obtain ⟨c, -, hc⟩ := (@run_serialise δ d d cap u .zero rfl nofun
      (Nat.zero_le _)).accept ⟨.inl rfl, by simpa [Conf.zero] using hu⟩
    exact ⟨c, hc⟩
  obtain ⟨c, hv⟩ := hrun v (le_max_left _ _)
  obtain ⟨c', hw⟩ := hrun w (le_max_right _ _)
  rw [h, hw] at hv
  exact traversal_injective (congrArg Prod.fst hv).symm

end Embedjson
