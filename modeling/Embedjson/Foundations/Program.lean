import Mathlib.Data.List.Basic
import Mathlib.Tactic

/-! Programs that call out, receive an integer for every call, and return. The observation of a
program answers zero to every call and ends at the first call of a given class. -/

namespace Embedjson.Foundations

inductive Program (C α : Type) where
  | done (a : α)
  | call (c : C) (next : ℤ → Program C α)

namespace Program

variable {C D S α β γ : Type}

def bind : Program C α → (α → Program C β) → Program C β
  | done a, k => k a
  | call c next, k => call c fun r => (next r).bind k

def invoke (c : C) : Program C ℤ := call c done

instance : Monad (Program C) where
  pure := done
  bind := bind

@[simp] lemma pure_eq_done (a : α) : (pure a : Program C α) = done a := rfl

@[simp] lemma bind_eq (p : Program C α) (k : α → Program C β) : p >>= k = p.bind k := rfl

@[simp] lemma done_bind (a : α) (k : α → Program C β) : (done a).bind k = k a := rfl

@[simp] lemma call_bind (c : C) (next : ℤ → Program C α) (k : α → Program C β) :
    (call c next).bind k = call c fun r => (next r).bind k := rfl

@[simp] lemma bind_done (p : Program C α) : p.bind done = p := by
  induction p with
  | done a => rfl
  | call c next ih => exact congrArg (call c) (funext ih)

lemma bind_assoc (p : Program C α) (k : α → Program C β) (l : β → Program C γ) :
    (p.bind k).bind l = p.bind fun a => (k a).bind l := by
  induction p with
  | done a => rfl
  | call c next ih => exact congrArg (call c) (funext ih)

/-- Run against an environment whose answers may depend on every earlier call. The result holds
the calls of this run only. -/
def run (answer : List C → C → ℤ) : Program C α → List C → List C × α
  | done a, _ => ([], a)
  | call c next, history =>
    (c :: (run answer (next (answer history c)) (history ++ [c])).1,
      (run answer (next (answer history c)) (history ++ [c])).2)

/-- The calls made while every answer is zero, up to the first call in `E`, which is included. -/
def observe (E : C → Bool) : Program C α → List C × Option α
  | done a => ([], some a)
  | call c next =>
    if E c then ([c], none) else (c :: (observe E (next 0)).1, (observe E (next 0)).2)

/-- Interpret each call by a program over other calls that carries a state. -/
def interpret (handler : C → S → Program D (ℤ × S)) : Program C α → S → Program D (α × S)
  | done a, s => done (a, s)
  | call c next, s => (handler c s).bind fun a => interpret handler (next a.1) a.2

/-- The calls that an interpreted run handles, each with the state in front of it. -/
def handled (handler : C → S → Program D (ℤ × S)) (answer : List D → D → ℤ) :
    Program C α → S → List D → List (C × S)
  | done _, _, _ => []
  | call c next, s, history =>
    let x := run answer (handler c s) history
    (c, s) :: handled handler answer (next x.2.1) x.2.2 (history ++ x.1)

/-- A program that returns every non-zero answer at once and zero when there was none. -/
def FailsFast (code : α → ℤ) : Program C α → Prop
  | done a => code a = 0
  | call _ next => (∀ r, r ≠ 0 → ∃ a, next r = done a ∧ code a = r) ∧ FailsFast code (next 0)

/-- A call in `E` is the last one, whatever it is answered, and leads to a result in `Q`. -/
def EndsAt (E : C → Bool) (Q : α → Prop) : Program C α → Prop
  | done _ => True
  | call c next => (E c = true → ∀ r, ∃ a, next r = done a ∧ Q a) ∧ ∀ r, EndsAt E Q (next r)

def Returns (P : α → Prop) : Program C α → Prop
  | done a => P a
  | call _ next => ∀ r, Returns P (next r)

/-- The result has the property `P` where no call in `E` is answered with zero. -/
def Ensures (E : C → Bool) (P : α → Prop) : Program C α → Prop
  | done a => P a
  | call c next => ∀ r, (E c = true → r ≠ 0) → Ensures E P (next r)

/-- Whatever the answers are, every call has the property `P` and the result has `Q`. -/
def Allows (P : C → Prop) (Q : α → Prop) : Program C α → Prop
  | done a => Q a
  | call c next => P c ∧ ∀ r, Allows P Q (next r)

variable {E : C → Bool} {F : D → Bool} {code : α → ℤ} {code' : β → ℤ}

@[simp] lemma observe_done (a : α) : observe E (done a : Program C α) = ([], some a) := rfl

lemma observe_call_of_mem {c : C} (h : E c = true) (next : ℤ → Program C α) :
    observe E (call c next) = ([c], none) := by
  simp [observe, h]

lemma observe_call_of_notMem {c : C} (h : E c = false) (next : ℤ → Program C α) :
    observe E (call c next) = (c :: (observe E (next 0)).1, (observe E (next 0)).2) := by
  simp [observe, h]

def followedBy (x : List C × Option α) (k : α → List C × Option β) : List C × Option β :=
  match x.2 with
  | none => (x.1, none)
  | some a => (x.1 ++ (k a).1, (k a).2)

@[simp] lemma followedBy_none (l : List C) (k : α → List C × Option β) :
    followedBy (l, none) k = (l, none) := rfl

@[simp] lemma followedBy_some (l : List C) (a : α) (k : α → List C × Option β) :
    followedBy (l, some a) k = (l ++ (k a).1, (k a).2) := rfl

lemma observe_bind (p : Program C α) (k : α → Program C β) :
    observe E (p.bind k) = followedBy (observe E p) fun a => observe E (k a) := by
  induction p with
  | done a => simp
  | call c next ih =>
    cases h : E c with
    | true => simp [observe_call_of_mem h]
    | false =>
      rw [call_bind, observe_call_of_notMem h, observe_call_of_notMem h, ih 0]
      cases ha : (observe E (next 0)).2 <;> simp [followedBy, ha]

lemma run_bind (answer : List C → C → ℤ) (p : Program C α) (k : α → Program C β)
    (history : List C) :
    run answer (p.bind k) history =
      ((run answer p history).1 ++
          (run answer (k (run answer p history).2) (history ++ (run answer p history).1)).1,
        (run answer (k (run answer p history).2) (history ++ (run answer p history).1)).2) := by
  induction p generalizing history with
  | done a => simp [run]
  | call c next ih => simp [run, ih]

lemma failsFast_invoke (c : C) : FailsFast id (invoke c) :=
  ⟨fun r _ => ⟨r, rfl, rfl⟩, rfl⟩

lemma FailsFast.bind {p : Program C α} {k : α → Program C β} (hp : FailsFast code p)
    (hk : ∀ a, code a = 0 → FailsFast code' (k a))
    (hf : ∀ a, code a ≠ 0 → ∃ b, k a = done b ∧ code' b = code a) :
    FailsFast code' (p.bind k) := by
  induction p with
  | done a => exact hk a hp
  | call c next ih =>
    refine ⟨fun r hr => ?_, ih 0 hp.2⟩
    obtain ⟨a, ha, hc⟩ := hp.1 r hr
    obtain ⟨b, hb, hc'⟩ := hf a (by rw [hc]; exact hr)
    exact ⟨b, by simp [ha, hb], by rw [hc', hc]⟩

lemma FailsFast.observe_eq {p : Program C α} (hp : FailsFast code p) {l : List C} {a : α}
    (h : observe E p = (l, some a)) : code a = 0 := by
  induction p generalizing l with
  | done b =>
    simp only [observe_done, Prod.mk.injEq, Option.some.injEq] at h
    exact h.2 ▸ hp
  | call c next ih =>
    cases hc : E c with
    | true => simp [observe_call_of_mem hc] at h
    | false =>
      rw [observe_call_of_notMem hc, Prod.mk.injEq] at h
      exact ih 0 hp.2 (Prod.ext rfl h.2)

/-- Whatever the answers are, a run makes the observed calls, up to the first failing answer. -/
lemma FailsFast.run_isPrefix {p : Program C α} (hp : FailsFast code p)
    (answer : List C → C → ℤ) (history : List C) :
    (run answer p history).1.takeWhile (!E ·) <+: (observe E p).1.takeWhile (!E ·) := by
  induction p generalizing history with
  | done a => simp [run]
  | call c next ih =>
    cases hc : E c with
    | true => simp [run, observe_call_of_mem hc, hc]
    | false =>
      simp only [run, observe_call_of_notMem hc, List.takeWhile_cons, hc, Bool.not_false, if_true]
      refine List.cons_prefix_cons.mpr ⟨rfl, ?_⟩
      by_cases hr : answer history c = 0
      · rw [hr]
        exact ih 0 hp.2 _
      · obtain ⟨a, ha, -⟩ := hp.1 _ hr
        simp [ha, run]

lemma FailsFast.observe_of_run {p : Program C α} (hp : FailsFast code p)
    {answer : List C → C → ℤ} {history : List C} (hzero : code (run answer p history).2 = 0)
    (hE : ∀ c ∈ (run answer p history).1, E c = false) :
    observe E p = ((run answer p history).1, some (run answer p history).2) := by
  induction p generalizing history with
  | done a => rfl
  | call c next ih =>
    obtain ⟨hc, hnext⟩ := List.forall_mem_cons.mp hE
    have hr : answer history c = 0 := by
      by_contra hr
      obtain ⟨a, ha, hcode⟩ := hp.1 _ hr
      simp only [run, ha] at hzero
      exact hr (hcode ▸ hzero)
    simp only [run, hr] at hzero hnext ⊢
    rw [observe_call_of_notMem hc, ih 0 hp.2 hzero hnext]

lemma FailsFast.run_calls_ne_nil {p : Program C α} (hp : FailsFast code p)
    {answer : List C → C → ℤ} {history : List C} (h : code (run answer p history).2 ≠ 0) :
    (run answer p history).1 ≠ [] := by
  cases p with
  | done a => exact absurd hp h
  | call c next => simp [run]

/-- An environment that accepts the calls outside `E` and refuses those in `E`. -/
structure Accepting (E : C → Bool) (answer : List C → C → ℤ) : Prop where
  refuses : ∀ history c, E c = true → answer history c ≠ 0
  accepts : ∀ history c, E c = false → answer history c = 0

def accept (E : C → Bool) (_ : List C) (c : C) : ℤ := if E c then 1 else 0

lemma accepting_accept (E : C → Bool) : Accepting E (accept E) :=
  ⟨fun _ c h => by simp [accept, h], fun _ c h => by simp [accept, h]⟩

lemma FailsFast.run_accepting {p : Program C α} (hp : FailsFast code p)
    {answer : List C → C → ℤ} (hA : Accepting E answer) (history : List C) :
    (run answer p history).1 = (observe E p).1 ∧
      (∀ a, (observe E p).2 = some a → (run answer p history).2 = a) ∧
      ((observe E p).2 = none → code (run answer p history).2 ≠ 0) := by
  induction p generalizing history with
  | done a => simp [run]
  | call c next ih =>
    cases hc : E c with
    | true =>
      obtain ⟨a, ha, hcode⟩ := hp.1 _ (hA.refuses history c hc)
      simp [run, observe_call_of_mem hc, ha, hcode, hA.refuses history c hc]
    | false =>
      obtain ⟨h₁, h₂, h₃⟩ := ih 0 hp.2 (history ++ [c])
      simp only [run, hA.accepts history c hc, observe_call_of_notMem hc]
      exact ⟨by rw [h₁], h₂, h₃⟩

lemma FailsFast.run_eq_iff {p : Program C α} (hp : FailsFast code p) {answer : List C → C → ℤ}
    (hA : Accepting E answer) (history : List C) {l : List C} {a : α} (ha : code a = 0) :
    run answer p history = (l, a) ↔ observe E p = (l, some a) := by
  obtain ⟨hcalls, hsome, hnone⟩ := hp.run_accepting hA history
  constructor
  · intro h
    rw [h] at hcalls hsome hnone
    cases ho : (observe E p).2 with
    | none => exact absurd ha (hnone ho)
    | some b =>
      obtain rfl : a = b := hsome b ho
      exact Prod.ext hcalls.symm ho
  · intro h
    rw [h] at hcalls hsome
    exact Prod.ext hcalls (hsome a rfl)

lemma Returns.run {P : α → Prop} {p : Program C α} (hp : Returns P p) (answer : List C → C → ℤ)
    (history : List C) : P (run answer p history).2 := by
  induction p generalizing history with
  | done a => exact hp
  | call c next ih => exact ih _ (hp _) _

lemma Returns.observe {P : α → Prop} {p : Program C α} (hp : Returns P p) {l : List C} {a : α}
    (h : observe E p = (l, some a)) : P a := by
  induction p generalizing l with
  | done b =>
    cases h
    exact hp
  | call c next ih =>
    cases hc : E c with
    | true => simp [observe_call_of_mem hc] at h
    | false =>
      rw [observe_call_of_notMem hc, Prod.mk.injEq] at h
      exact ih 0 (hp 0) (Prod.ext rfl h.2)

lemma returns_bind {Q : β → Prop} {p : Program C α} {k : α → Program C β} :
    Returns Q (p.bind k) ↔ Returns (fun a => Returns Q (k a)) p := by
  induction p with
  | done a => exact Iff.rfl
  | call c next ih => exact forall_congr' ih

lemma Returns.bind {P : α → Prop} {Q : β → Prop} {p : Program C α} {k : α → Program C β}
    (hp : Returns P p) (hk : ∀ a, P a → Returns Q (k a)) : Returns Q (p.bind k) := by
  induction p with
  | done a => exact hk a hp
  | call c next ih => exact fun r => ih r (hp r)

lemma Returns.mono {P Q : α → Prop} {p : Program C α} (h : ∀ a, P a → Q a) (hp : Returns P p) :
    Returns Q p := by
  induction p with
  | done a => exact h a hp
  | call c next ih => exact fun r => ih r (hp r)

lemma Returns.bind_congr {p : Program C α} {k l : α → Program C β}
    (h : Returns (fun a => k a = l a) p) : p.bind k = p.bind l := by
  induction p with
  | done a => exact h
  | call c next ih => exact congrArg (call c) (funext fun r => ih r (h r))

lemma Ensures.run {P : α → Prop} {p : Program C α} (hp : Ensures E P p)
    {answer : List C → C → ℤ} (hE : ∀ history c, E c = true → answer history c ≠ 0)
    (history : List C) : P (run answer p history).2 := by
  induction p generalizing history with
  | done a => exact hp
  | call c next ih => exact ih _ (hp _ fun hc => hE history c hc) _

lemma Ensures.observe {P : α → Prop} {p : Program C α} (hp : Ensures E P p) {l : List C} {a : α}
    (h : observe E p = (l, some a)) : P a := by
  induction p generalizing l with
  | done b =>
    cases h
    exact hp
  | call c next ih =>
    cases hc : E c with
    | true =>
      rw [observe_call_of_mem hc] at h
      cases h
    | false =>
      rw [observe_call_of_notMem hc, Prod.mk.injEq] at h
      exact ih 0 (hp 0 (by simp [hc])) (Prod.ext rfl h.2)

lemma Ensures.bind {P : α → Prop} {Q : β → Prop} {p : Program C α} {k : α → Program C β}
    (hp : Ensures E P p) (hk : ∀ a, P a → Ensures E Q (k a)) : Ensures E Q (p.bind k) := by
  induction p with
  | done a => exact hk a hp
  | call c next ih => exact fun r hr => ih r (hp r hr)

section Allows

variable {P P' : C → Prop} {Q Q' : α → Prop} {R : β → Prop} {p : Program C α} {k : α → Program C β}

lemma Allows.run (hp : Allows P Q p) (answer : List C → C → ℤ) (history : List C) :
    (∀ c ∈ (run answer p history).1, P c) ∧ Q (run answer p history).2 := by
  induction p generalizing history with
  | done a => exact ⟨List.forall_mem_nil _, hp⟩
  | call c next ih =>
    obtain ⟨hcalls, hresult⟩ := ih _ (hp.2 _) (history ++ [c])
    exact ⟨List.forall_mem_cons.mpr ⟨hp.1, hcalls⟩, hresult⟩

lemma Allows.observe (hp : Allows P Q p) : ∀ c ∈ (observe E p).1, P c := by
  induction p with
  | done a => exact List.forall_mem_nil _
  | call c next ih =>
    cases hc : E c with
    | true =>
      rw [observe_call_of_mem hc]
      exact List.forall_mem_singleton.mpr hp.1
    | false =>
      rw [observe_call_of_notMem hc]
      exact List.forall_mem_cons.mpr ⟨hp.1, ih 0 (hp.2 0)⟩

lemma Allows.bind (hp : Allows P Q p) (hk : ∀ a, Q a → Allows P R (k a)) :
    Allows P R (p.bind k) := by
  induction p with
  | done a => exact hk a hp
  | call c next ih => exact ⟨hp.1, fun r => ih r (hp.2 r)⟩

lemma Allows.mono (hp : Allows P Q p) (hP : ∀ c, P c → P' c) (hQ : ∀ a, Q a → Q' a) :
    Allows P' Q' p := by
  induction p with
  | done a => exact hQ a hp
  | call c next ih => exact ⟨hP c hp.1, fun r => ih r (hp.2 r)⟩

lemma Allows.returns (hp : Allows P Q p) : Returns Q p := by
  induction p with
  | done a => exact hp
  | call c next ih => exact fun r => ih r (hp.2 r)

end Allows

lemma returns_of_forall {P : α → Prop} (h : ∀ a, P a) (p : Program C α) : Returns P p := by
  induction p with
  | done a => exact h a
  | call c next ih => exact ih

lemma Returns.interpret {P : α → Prop} {handler : C → S → Program D (ℤ × S)} {p : Program C α}
    (hp : Returns P p) (s : S) :
    Returns (fun a : α × S => P a.1) (interpret handler p s) := by
  induction p generalizing s with
  | done a => exact hp
  | call c next ih =>
    exact (returns_of_forall (P := fun _ => True) (fun _ => trivial) _).bind fun a _ => ih _ (hp _) _

lemma interpret_bind (handler : C → S → Program D (ℤ × S)) (p : Program C α)
    (k : α → Program C β) (s : S) :
    interpret handler (p.bind k) s =
      (interpret handler p s).bind fun a => interpret handler (k a.1) a.2 := by
  induction p generalizing s with
  | done a => rfl
  | call c next ih => simp only [call_bind, interpret, bind_assoc, ih]

def Granted (answer : List C → C → ℤ) : List C → List C → Prop
  | _, [] => True
  | history, c :: calls => answer history c = 0 ∧ Granted answer (history ++ [c]) calls

lemma granted_append {answer : List C → C → ℤ} {history l m : List C} :
    Granted answer history (l ++ m) ↔
      Granted answer history l ∧ Granted answer (history ++ l) m := by
  induction l generalizing history with
  | nil => simp [Granted]
  | cons c l ih => simp [Granted, ih, and_assoc]

lemma run_of_granted {p : Program C α} {answer : List C → C → ℤ} {history l : List C} {a : α}
    (h : observe E p = (l, some a)) (hg : Granted answer history l) :
    run answer p history = (l, a) := by
  induction p generalizing history l with
  | done b =>
    cases h
    rfl
  | call c next ih =>
    cases hc : E c with
    | true => simp [observe_call_of_mem hc] at h
    | false =>
      rw [observe_call_of_notMem hc, Prod.mk.injEq] at h
      obtain ⟨rfl, ha⟩ := h
      rw [run, hg.1, ih 0 (Prod.ext rfl ha) hg.2]

lemma FailsFast.run_cases {p : Program C α} (hp : FailsFast code p) (answer : List C → C → ℤ)
    (history : List C) :
    (∃ granted c, (run answer p history).1 = granted ++ [c] ∧ Granted answer history granted ∧
        answer (history ++ granted) c ≠ 0 ∧
        code (run answer p history).2 = answer (history ++ granted) c) ∨
      Granted answer history (run answer p history).1 ∧ code (run answer p history).2 = 0 := by
  induction p generalizing history with
  | done a => exact .inr ⟨trivial, hp⟩
  | call c next ih =>
    by_cases hr : answer history c = 0
    · rw [run, hr]
      rcases ih 0 hp.2 (history ++ [c]) with ⟨granted, d, hcalls, hgranted, hd, hcode⟩ | ⟨hg, hcode⟩
      · refine .inl ⟨c :: granted, d, by simp [hcalls], ⟨hr, hgranted⟩, ?_, ?_⟩
        · simpa using hd
        · simpa using hcode
      · exact .inr ⟨⟨hr, hg⟩, hcode⟩
    · obtain ⟨a, ha, hcode⟩ := hp.1 _ hr
      exact .inl ⟨[], c, by simp [run, ha], trivial, by simpa using hr, by simpa [run, ha] using hcode⟩

/-- Programs that are observed alike cannot be told apart by an environment that refuses the calls
in `E`. -/
lemma FailsFast.run_congr {p q : Program C ℤ} (hp : FailsFast id p) (hq : FailsFast id q)
    (h : observe E p = observe E q) {answer : List C → C → ℤ}
    (hE : ∀ history c, E c = true → answer history c ≠ 0) (history : List C) :
    run answer p history = run answer q history := by
  have hnil {next : ℤ → Program C ℤ} {a : ℤ} {c : C} : observe E (call c next) ≠ ([], some a) := by
    rw [observe]
    split_ifs <;> simp
  induction p generalizing q history with
  | done a =>
    cases q with
    | done b =>
      cases h
      rfl
    | call c next => exact absurd h.symm hnil
  | call c next ih =>
    cases q with
    | done b => exact absurd h hnil
    | call d next' =>
      have hcall : c = d ∧ (E c = false → observe E (next 0) = observe E (next' 0)) := by
        cases hc : E c <;> cases hd : E d <;>
          simp_all [observe_call_of_mem, observe_call_of_notMem, Prod.ext_iff]
      obtain ⟨rfl, hnext⟩ := hcall
      rw [run, run]
      by_cases hr : answer history c = 0
      · have hc : E c = false := Bool.eq_false_iff.mpr fun hc => hE history c hc hr
        rw [hr, ih 0 hp.2 hq.2 (hnext hc)]
      · obtain ⟨a, ha, hcode⟩ := hp.1 _ hr
        obtain ⟨b, hb, hcode'⟩ := hq.1 _ hr
        rw [ha, hb, show a = b from hcode.trans hcode'.symm]

/-- Feed a list of calls to a handler, up to the first one in which `F` is observed. -/
def feed (F : D → Bool) (handler : C → S → Program D (ℤ × S)) : List C → S → List D × Option S
  | [], s => ([], some s)
  | c :: l, s => followedBy (observe F (handler c s)) fun a => feed F handler l a.2

@[simp] lemma feed_nil (handler : C → S → Program D (ℤ × S)) (s : S) :
    feed F handler [] s = ([], some s) := rfl

lemma feed_cons (handler : C → S → Program D (ℤ × S)) (c : C) (l : List C) (s : S) :
    feed F handler (c :: l) s =
      followedBy (observe F (handler c s)) fun a => feed F handler l a.2 := rfl

lemma followedBy_assoc (x : List C × Option α) (k : α → List C × Option β)
    (l : β → List C × Option γ) :
    followedBy (followedBy x k) l = followedBy x fun a => followedBy (k a) l := by
  obtain ⟨xs, _ | a⟩ := x
  · rfl
  · cases h : (k a).2 <;> simp [followedBy, h]

lemma feed_append (handler : C → S → Program D (ℤ × S)) (l m : List C) (s : S) :
    feed F handler (l ++ m) s = followedBy (feed F handler l s) fun t => feed F handler m t := by
  induction l generalizing s with
  | nil => simp
  | cons c l ih => simp only [List.cons_append, feed_cons, ih, followedBy_assoc]

lemma feed_concat {handler : C → S → Program D (ℤ × S)} {l : List C} {s t : S} {ds : List D}
    (h : feed F handler l s = (ds, some t)) (c : C) :
    feed F handler (l ++ [c]) s =
      (ds ++ (observe F (handler c t)).1, (observe F (handler c t)).2.map Prod.snd) := by
  rw [feed_append, h, followedBy_some, feed_cons]
  rcases observe F (handler c t) with ⟨es, _ | a⟩ <;> simp

lemma feed_concat_some {handler : C → S → Program D (ℤ × S)} {l : List C} {c : C} {s u : S}
    {ds : List D} (h : feed F handler (l ++ [c]) s = (ds, some u)) :
    ∃ ds' t es r, feed F handler l s = (ds', some t) ∧
      observe F (handler c t) = (es, some (r, u)) ∧ ds = ds' ++ es := by
  rcases hl : feed F handler l s with ⟨ds', _ | t⟩
  · rw [feed_append, hl] at h
    cases h
  · have hconcat := (feed_concat hl c).symm.trans h
    rcases ho : observe F (handler c t) with ⟨es, _ | ⟨r, v⟩⟩
    · rw [ho] at hconcat
      cases hconcat
    · rw [ho] at hconcat
      cases hconcat
      exact ⟨ds', t, es, r, rfl, ho, rfl⟩

lemma observe_interpret {handler : C → S → Program D (ℤ × S)}
    (hh : ∀ c s, FailsFast Prod.fst (handler c s))
    (hE : ∀ c, E c = true → ∀ s, (observe F (handler c s)).2 = none)
    (p : Program C α) (s : S) :
    observe F (interpret handler p s) =
      followedBy (feed F handler (observe E p).1 s) fun t =>
        ([], (observe E p).2.map fun a => (a, t)) := by
  induction p generalizing s with
  | done a => simp [interpret]
  | call c next ih =>
    rw [interpret, observe_bind]
    cases hc : E c with
    | true =>
      have hn := hE c hc s
      simp [observe_call_of_mem hc, feed_cons, followedBy, hn]
    | false =>
      rw [observe_call_of_notMem hc, feed_cons, followedBy_assoc]
      cases ho : observe F (handler c s) with
      | mk l o =>
        cases o with
        | none => rfl
        | some a =>
          have ha : a.1 = 0 := (hh c s).observe_eq ho
          simp only [followedBy_some, ha, ih]

lemma FailsFast.interpret {handler : C → S → Program D (ℤ × S)}
    (hh : ∀ c s, FailsFast Prod.fst (handler c s)) {p : Program C α} (hp : FailsFast code p)
    (s : S) : FailsFast (fun a : α × S => code a.1) (interpret handler p s) := by
  induction p generalizing s with
  | done a => exact hp
  | call c next ih =>
    refine (hh c s).bind (fun a ha => ?_) (fun a ha => ?_)
    · rw [ha]
      exact ih 0 hp.2 a.2
    · obtain ⟨b, hb, hc⟩ := hp.1 a.1 ha
      exact ⟨(b, a.2), by simp [hb, Program.interpret], hc⟩

section Handled

variable {handler : C → S → Program D (ℤ × S)} {answer : List D → D → ℤ} {p : Program C α} {s : S}
  {history : List D} {P : C → Prop} {Q : α → Prop} {R : D → Prop}

lemma run_interpret_forall
    (h : ∀ x ∈ handled handler answer p s history, ∀ history',
      ∀ d ∈ (run answer (handler x.1 x.2) history').1, R d) :
    ∀ d ∈ (run answer (interpret handler p s) history).1, R d := by
  induction p generalizing s history with
  | done a => exact List.forall_mem_nil _
  | call c next ih =>
    obtain ⟨hcall, hnext⟩ := List.forall_mem_cons.mp h
    rw [interpret, run_bind]
    exact List.forall_mem_append.mpr ⟨hcall history, ih _ hnext⟩

lemma handled_subset {x : C × S} (hx : x ∈ handled handler answer p s history) :
    ∃ history', (run answer (handler x.1 x.2) history').1 ⊆
      (run answer (interpret handler p s) history).1 := by
  induction p generalizing s history with
  | done a => cases hx
  | call c next ih =>
    rw [interpret, run_bind]
    rcases List.mem_cons.mp hx with rfl | hx
    · exact ⟨history, List.subset_append_left _ _⟩
    · obtain ⟨history', hsubset⟩ := ih _ hx
      exact ⟨history', List.subset_append_of_subset_right _ hsubset⟩

lemma Allows.handled (hp : Allows P Q p) :
    ∀ x ∈ handled handler answer p s history, P x.1 := by
  induction p generalizing s history with
  | done a => exact List.forall_mem_nil _
  | call c next ih =>
    exact List.forall_mem_cons.mpr ⟨hp.1, ih _ (hp.2 _)⟩

lemma EndsAt.bind {Q' : β → Prop} {k : α → Program C β} (hp : EndsAt E Q p)
    (hk : ∀ a, EndsAt E Q' (k a)) (hend : ∀ a, Q a → ∃ b, k a = done b ∧ Q' b) :
    EndsAt E Q' (p.bind k) := by
  induction p with
  | done a => exact hk a
  | call c next ih =>
    refine ⟨fun hc r => ?_, fun r => ih r (hp.2 r)⟩
    obtain ⟨a, ha, hQ⟩ := hp.1 hc r
    simpa [ha] using hend a hQ

lemma EndsAt.handled_isPrefix (he : EndsAt E Q p) (hp : FailsFast code p) :
    (Program.handled handler answer p s history).map Prod.fst <+: (observe E p).1 := by
  induction p generalizing s history with
  | done a => exact List.nil_prefix
  | call c next ih =>
    have hdone {r : ℤ} {a : α} (ha : next r = done a) (t : S) (history' : List D) :
        Program.handled handler answer (next r) t history' = [] := by
      rw [ha]
      rfl
    rw [Program.handled]
    cases hc : E c with
    | true =>
      obtain ⟨a, ha, -⟩ := he.1 hc (run answer (handler c s) history).2.1
      rw [observe_call_of_mem hc, hdone ha]
      exact List.prefix_rfl
    | false =>
      rw [observe_call_of_notMem hc]
      refine List.cons_prefix_cons.mpr ⟨rfl, ?_⟩
      by_cases hr : (run answer (handler c s) history).2.1 = 0
      · rw [hr]
        exact ih 0 (he.2 0) hp.2
      · obtain ⟨a, ha, -⟩ := hp.1 _ hr
        rw [hdone ha]
        exact List.nil_prefix

end Handled

lemma FailsFast.run_interpret_failed {handler : C → S → Program D (ℤ × S)}
    (hh : ∀ c s, FailsFast Prod.fst (handler c s))
    (hE : ∀ c, E c = true → ∀ s, (observe F (handler c s)).2 = none)
    {answer : List D → D → ℤ} (hA : Accepting F answer) {p : Program C α} (hp : FailsFast code p)
    {s : S} {history : List D} (hne : code (run answer (Program.interpret handler p s) history).2.1 ≠ 0) :
    ∃ l c us t, l ++ [c] <+: (observe E p).1 ∧ feed F handler l s = (us, some t) ∧
      (observe F (handler c t)).2 = none ∧
      (run answer (Program.interpret handler p s) history).1 = us ++ (observe F (handler c t)).1 ∧
      (run answer (Program.interpret handler p s) history).2.2 =
        (run answer (handler c t) (history ++ us)).2.2 := by
  induction p generalizing s history with
  | done a => exact absurd hp hne
  | call c next ih =>
    obtain ⟨hcalls, hsome, hnone⟩ := (hh c s).run_accepting hA history
    rw [Program.interpret, run_bind] at hne ⊢
    rcases ho : observe F (handler c s) with ⟨us, _ | a⟩
    · rw [ho] at hnone hcalls
      obtain ⟨b, hb, -⟩ := hp.1 _ (hnone rfl)
      refine ⟨[], c, [], s, ?_, rfl, by rw [ho], ?_, ?_⟩
      · cases hc : E c with
        | true => simp [observe_call_of_mem hc]
        | false => simp [observe_call_of_notMem hc]
      · rw [hb]
        simp [Program.interpret, run, hcalls, ho]
      · rw [hb]
        simp [Program.interpret, run]
    · have ha := hsome a (congrArg Prod.snd ho)
      have hzero : a.1 = 0 := (hh c s).observe_eq ho
      have hc : E c = false := by
        by_contra hc
        have hrefused := hE c (by simpa using hc) s
        rw [ho] at hrefused
        cases hrefused
      rw [ha, hzero, hcalls, ho] at hne ⊢
      obtain ⟨l, d, vs, t, hl, hfeed, hrefused, hrun, hstate⟩ := ih 0 hp.2 hne
      refine ⟨c :: l, d, us ++ vs, t, ?_, ?_, hrefused, ?_, ?_⟩
      · rw [observe_call_of_notMem hc]
        exact List.cons_prefix_cons.mpr ⟨rfl, hl⟩
      · rw [feed_cons, ho, followedBy_some, hfeed]
      · rw [hrun, List.append_assoc]
      · rw [hstate, List.append_assoc]

end Program

end Embedjson.Foundations
