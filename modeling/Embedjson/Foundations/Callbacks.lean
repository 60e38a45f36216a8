import Embedjson.Foundations.Program

/-! Programs whose calls are served by callbacks that share a state. -/

namespace Embedjson.Foundations.Program

variable {C S α β : Type} (callback : C → S → ℤ × S)

def serve : Program C α → S → α × S
  | done a, s => (a, s)
  | call c next, s => serve (next (callback c s).1) (callback c s).2

def served (s : S) (calls : List C) : S := calls.foldl (fun s c => (callback c s).2) s

/-- The callbacks as an environment that remembers every earlier call. -/
def environment (s : S) (history : List C) (c : C) : ℤ := (callback c (served callback s history)).1

variable {callback}

@[simp] lemma serve_done (a : α) (s : S) : serve callback (done a : Program C α) s = (a, s) := rfl

@[simp] lemma served_append (s : S) (l m : List C) :
    served callback s (l ++ m) = served callback (served callback s l) m := List.foldl_append

@[simp] lemma served_nil (s : S) : served callback s [] = s := rfl

@[simp] lemma served_cons (s : S) (c : C) (l : List C) :
    served callback s (c :: l) = served callback (callback c s).2 l := rfl

variable (callback) in
lemma serve_eq_run (p : Program C α) (s : S) (history : List C) :
    serve callback p (served callback s history) =
      ((run (environment callback s) p history).2,
        served callback s (history ++ (run (environment callback s) p history).1)) := by
  induction p generalizing history with
  | done a => simp [run]
  | call c next ih =>
    have h := ih (environment callback s history c) (history ++ [c])
    simpa [serve, run, environment, List.append_assoc] using h

section Measures

variable {callback' : C → S → ℤ × S} {size : S → ℕ} {bound : ℕ}

lemma serve_le (hmono : ∀ c s, size s ≤ size (callback c s).2) (p : Program C α) (s : S) :
    size s ≤ size (serve callback p s).2 := by
  induction p generalizing s with
  | done a => exact le_rfl
  | call c next ih => exact (hmono c s).trans (ih _ _)

/-- Callbacks that agree on states up to a bound serve alike a program which stays within it. -/
lemma serve_congr (hmono : ∀ c s, size s ≤ size (callback c s).2)
    (hagree : ∀ c s, size (callback c s).2 ≤ bound → callback' c s = callback c s)
    (p : Program C α) (s : S) (hbound : size (serve callback p s).2 ≤ bound) :
    serve callback' p s = serve callback p s := by
  induction p generalizing s with
  | done a => rfl
  | call c next ih =>
    have hstep : size (callback c s).2 ≤ bound := (serve_le hmono _ _).trans hbound
    rw [serve, serve, hagree c s hstep]
    exact ih _ _ hbound

end Measures

end Embedjson.Foundations.Program
