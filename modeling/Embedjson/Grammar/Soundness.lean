import Embedjson.Foundations.Transducer
import Embedjson.Grammar.Json
import Embedjson.Parser.Automaton

/-! What the automaton has read is at any time a part of a document, and the callbacks are the
beginning of its traversal. -/

namespace Embedjson

open Foundations Json

variable {δ : Type}

namespace Automaton

def lexeme (A : Automaton) (c : Conf) : Lexeme δ → Move δ
  | .tok t => A.token c t
  | .int v => primitive c (.int v)
  | .double v => primitive c (.double v)
  | .string text => (afterString c.state).map fun s => (textCalls text, { c with state := s })

def machine (A : Automaton) : Transducer Conf (Lexeme δ) (UserCall δ) Unit where
  step c x :=
    match A.lexeme c x with
    | some (us, c') => (us, .ok c')
    | none => ([], .error ())

lemma machine_step_ok {A : Automaton} {c c' : Conf} {x : Lexeme δ} {us : List (UserCall δ)} :
    A.machine.step c x = (us, .ok c') ↔ A.lexeme c x = some (us, c') := by
  simp only [machine]
  rcases A.lexeme c x with _ | ⟨vs, d⟩ <;> simp

lemma machine_step_error {A : Automaton} {c : Conf} {x : Lexeme δ} (h : A.lexeme c x = none) :
    A.machine.step c x = ([], .error ()) := by
  simp [machine, h]

lemma lexeme_open {A : Automaton} {c : Conf} (h : afterValue c.state = none) {t : Tok}
    (ht : t = .openCurlyBracket ∨ t = .openBracket) : A.lexeme c (.tok t : Lexeme δ) = none := by
  rcases ht with rfl | rfl <;> exact if_pos (.inl h)

end Automaton

inductive Enclosure (δ : Type) where
  | array (before : List (Json δ))
  | object (before : List (Text × Json δ)) (key : Text)

namespace Enclosure

def kind : Enclosure δ → StackValue
  | array _ => .square
  | object _ _ => .curly

def tokens (d : Dialect) : Enclosure δ → List (Lexeme δ)
  | array es => .tok .openBracket :: elementsBefore d es
  | object ms k => .tok .openCurlyBracket :: membersBefore d ms ++ [.string k, .tok .colon]

def events : Enclosure δ → List (UserCall δ)
  | array es => .arrayBegin :: traverseElements es
  | object ms k => .objectBegin :: traverseMembers ms ++ textCalls k

/-- The state in which a value is expected, from the frames around it, the innermost first. -/
def awaiting : List (Enclosure δ) → ParserState
  | [] => .expectValue
  | array [] :: _ => .maybeArrayValue
  | array (_ :: _) :: _ => .expectArrayValue
  | object _ _ :: _ => .expectObjectValue

def openTokens (d : Dialect) : List (Enclosure δ) → List (Lexeme δ)
  | [] => []
  | f :: fs => openTokens d fs ++ f.tokens d

def openEvents : List (Enclosure δ) → List (UserCall δ)
  | [] => []
  | f :: fs => openEvents fs ++ f.events

end Enclosure

open Enclosure

def Closable (d : Dialect) (ms : List (Text × Json δ)) : Prop :=
  ms = [] ∨ ∃ before k v, ms = before ++ [(k, v)] ∧ separator d v = []

/-- The tokens read, the callbacks made and the configuration of a part of a document. -/
inductive Reading (d : Dialect) : List (Lexeme δ) → List (UserCall δ) → Conf → Prop
  | value (fs) : Reading d (openTokens d fs) (openEvents fs) ⟨awaiting fs, fs.map kind⟩
  | done (v) : Reading d (serialise d v) (traversal v) ⟨.done, []⟩
  | element (fs es v) : Reading d (openTokens d (.array es :: fs) ++ serialise d v)
      (openEvents (.array es :: fs) ++ traversal v) ⟨.maybeArrayComma, .square :: fs.map kind⟩
  | maybeKey (fs ms) (h : Closable d ms) :
      Reading d (openTokens d fs ++ .tok .openCurlyBracket :: membersBefore d ms)
        (openEvents fs ++ .objectBegin :: traverseMembers ms)
        ⟨.maybeObjectKey, .curly :: fs.map kind⟩
  | key (fs ms) : Reading d (openTokens d fs ++ .tok .openCurlyBracket :: membersBefore d ms)
      (openEvents fs ++ .objectBegin :: traverseMembers ms) ⟨.expectObjectKey, .curly :: fs.map kind⟩
  | colon (fs ms k) :
      Reading d (openTokens d fs ++ .tok .openCurlyBracket :: membersBefore d ms ++ [.string k])
        (openEvents (.object ms k :: fs)) ⟨.expectColon, .curly :: fs.map kind⟩
  | member (fs ms k v) (h : separator d v = [.tok .comma]) :
      Reading d (openTokens d (.object ms k :: fs) ++ serialise d v)
        (openEvents (.object ms k :: fs) ++ traversal v)
        ⟨.maybeObjectComma, .curly :: fs.map kind⟩

namespace Reading

variable {d : Dialect}

lemma cast {ts ts' : List (Lexeme δ)} {ev ev' : List (UserCall δ)} {c c' : Conf}
    (h : Reading d ts ev c) (hts : ts = ts') (hev : ev = ev') (hc : c = c') : Reading d ts' ev' c' := by
  subst hts hev hc
  exact h

lemma separator_eq (d : Dialect) (v : Json δ) :
    (separator d v = [] ∧ d = .implemented ∧ v.isEmptyArray = true) ∨
      (separator d v = [.tok .comma] ∧
        (if v.isEmptyArray then d.afterEmptyArray else .maybeObjectComma) = .maybeObjectComma) := by
  unfold separator
  cases d with
  | documented => exact .inr ⟨if_neg (by simp), by simp [Dialect.afterEmptyArray]⟩
  | implemented =>
    cases hv : v.isEmptyArray with
    | true => exact .inl ⟨by simp, rfl, rfl⟩
    | false => exact .inr ⟨by simp, rfl⟩

lemma completed (fs : List (Enclosure δ)) (v : Json δ) :
    Reading d (openTokens d fs ++ serialise d v) (openEvents fs ++ traversal v)
      ⟨resume (if v.isEmptyArray then d.afterEmptyArray else .maybeObjectComma) (fs.map kind),
        fs.map kind⟩ := by
  cases fs with
  | nil => exact .done v
  | cons f fs =>
    cases f with
    | array es => exact .element fs es v
    | object ms k =>
      rcases separator_eq d v with ⟨hsep, rfl, hv⟩ | ⟨hsep, hstate⟩
      · refine (Reading.maybeKey fs (ms ++ [(k, v)]) (.inr ⟨ms, k, v, rfl, hsep⟩)).cast ?_ ?_ ?_
        · simp [openTokens, Enclosure.tokens, membersBefore, Json.member, hsep]
        · simp [openEvents, Enclosure.events, traverseMembers_append, traverseMembers]
        · simp [hv, resume, kind, Dialect.afterEmptyArray]
      · refine (Reading.member fs ms k v hsep).cast rfl rfl ?_
        simp [hstate, resume, kind]

variable {A : Automaton} {c c' : Conf} {ts : List (Lexeme δ)} {ev us : List (UserCall δ)}
  {x : Lexeme δ}

lemma afterValue_awaiting (fs : List (Enclosure δ)) :
    afterValue (awaiting fs) = some (resume .maybeObjectComma (fs.map kind)) := by
  rcases fs with _ | ⟨(_ | _) | _, fs⟩ <;> rfl

lemma afterString_awaiting (fs : List (Enclosure δ)) :
    afterString (awaiting fs) = some (resume .maybeObjectComma (fs.map kind)) := by
  rcases fs with _ | ⟨(_ | _) | _, fs⟩ <;> rfl

lemma scalar {fs : List (Enclosure δ)} {v : Json δ} (hx : serialise d v = [x])
    (hv : v.isEmptyArray = false) :
    Reading d (openTokens d fs ++ [x]) (openEvents fs ++ traversal v)
      ⟨resume .maybeObjectComma (fs.map kind), fs.map kind⟩ :=
  (completed fs v).cast (by rw [hx]) rfl (by simp [hv])

lemma primitive_awaiting {fs : List (Enclosure δ)} {u : UserCall δ}
    (h : Automaton.primitive ⟨awaiting fs, fs.map kind⟩ u = some (us, c')) :
    us = [u] ∧ c' = ⟨resume .maybeObjectComma (fs.map kind), fs.map kind⟩ := by
  rw [Automaton.primitive, afterValue_awaiting] at h
  cases h
  exact ⟨rfl, rfl⟩

lemma step_value (hA : A.afterEmptyArray = d.afterEmptyArray) {fs : List (Enclosure δ)}
    (hx : A.lexeme ⟨awaiting fs, fs.map kind⟩ x = some (us, c')) :
    Reading d (openTokens d fs ++ [x]) (openEvents fs ++ us) c' := by
  cases x with
  | tok t =>
    cases t with
    | openCurlyBracket =>
      obtain ⟨-, -, rfl, rfl⟩ := Automaton.openValue_eq_some hx
      exact .maybeKey fs [] (.inl rfl)
    | openBracket =>
      obtain ⟨-, -, rfl, rfl⟩ := Automaton.openValue_eq_some hx
      exact .value (.array [] :: fs)
    | closeBracket =>
      rcases fs with _ | ⟨(_ | _) | _, fs⟩ <;> cases hx
      refine (completed fs (.array [])).cast ?_ ?_ ?_
      · simp [openTokens, tokens, serialise, serialiseElements, elementsBefore]
      · simp [openEvents, events, traversal, traverseElements]
      · rw [hA]
        rfl
    | closeCurlyBracket | comma | colon =>
      rcases fs with _ | ⟨(_ | _) | _, fs⟩ <;> cases hx
    | true =>
      obtain ⟨rfl, rfl⟩ := primitive_awaiting hx
      exact scalar (v := .bool true) rfl rfl
    | false =>
      obtain ⟨rfl, rfl⟩ := primitive_awaiting hx
      exact scalar (v := .bool false) rfl rfl
    | null =>
      obtain ⟨rfl, rfl⟩ := primitive_awaiting hx
      exact scalar (v := .null) rfl rfl
  | int v =>
    obtain ⟨rfl, rfl⟩ := primitive_awaiting hx
    exact scalar (v := .int v) rfl rfl
  | double v =>
    obtain ⟨rfl, rfl⟩ := primitive_awaiting hx
    exact scalar (v := .double v) rfl rfl
  | string text =>
    rw [Automaton.lexeme, afterString_awaiting] at hx
    cases hx
    exact scalar (v := .string text) rfl rfl

lemma close_object {fs : List (Enclosure δ)} {ms : List (Text × Json δ)} (h : Closable d ms) :
    Reading d
      (openTokens d fs ++ .tok .openCurlyBracket :: membersBefore d ms ++ [.tok .closeCurlyBracket])
      (openEvents fs ++ .objectBegin :: traverseMembers ms ++ [.objectEnd])
      ⟨resume .maybeObjectComma (fs.map kind), fs.map kind⟩ := by
  have hms : serialiseMembers d ms = membersBefore d ms := by
    rcases h with rfl | ⟨before, k, v, rfl, hsep⟩
    · rfl
    · simp [serialiseMembers_concat, membersBefore, Json.member, hsep]
  refine (completed fs (.object ms)).cast ?_ ?_ rfl
  · simp [serialise, hms]
  · simp [traversal]

lemma step_element {fs : List (Enclosure δ)} {es : List (Json δ)} {v : Json δ}
    (hx : A.lexeme ⟨.maybeArrayComma, .square :: fs.map kind⟩ x = some (us, c')) :
    Reading d (openTokens d (.array es :: fs) ++ serialise d v ++ [x])
      (openEvents (.array es :: fs) ++ traversal v ++ us) c' := by
  cases x with
  | tok t =>
    cases t with
    | comma =>
      cases hx
      have haw : awaiting (.array (es ++ [v]) :: fs) = .expectArrayValue := by
        cases es <;> rfl
      refine (Reading.value (.array (es ++ [v]) :: fs)).cast ?_ ?_ (by rw [haw]; rfl)
      · simp [openTokens, tokens, elementsBefore]
      · simp [openEvents, events, traverseElements_append, traverseElements]
    | closeBracket =>
      cases hx
      refine (completed fs (.array (es ++ [v]))).cast ?_ ?_ ?_
      · simp [openTokens, tokens, serialise, serialiseElements_concat]
      · simp [openEvents, events, traversal, traverseElements_append, traverseElements]
      · cases es <;> rfl
    | openCurlyBracket | openBracket => cases (Automaton.lexeme_open rfl (by decide)).symm.trans hx
    | _ => cases hx
  | _ => cases hx

lemma step_member {fs : List (Enclosure δ)} {ms : List (Text × Json δ)} {k : Text} {v : Json δ}
    (h : separator d v = [.tok .comma])
    (hx : A.lexeme ⟨.maybeObjectComma, .curly :: fs.map kind⟩ x = some (us, c')) :
    Reading d (openTokens d (.object ms k :: fs) ++ serialise d v ++ [x])
      (openEvents (.object ms k :: fs) ++ traversal v ++ us) c' := by
  cases x with
  | tok t =>
    cases t with
    | comma =>
      cases hx
      refine (Reading.key fs (ms ++ [(k, v)])).cast ?_ ?_ rfl
      · simp [openTokens, tokens, membersBefore, Json.member, h]
      · simp [openEvents, events, traverseMembers_append, traverseMembers]
    | closeCurlyBracket =>
      cases hx
      refine (completed fs (.object (ms ++ [(k, v)]))).cast ?_ ?_ rfl
      · simp [openTokens, tokens, serialise, serialiseMembers_concat, Json.member]
      · simp [openEvents, events, traversal, traverseMembers_append, traverseMembers]
    | openCurlyBracket | openBracket => cases (Automaton.lexeme_open rfl (by decide)).symm.trans hx
    | _ => cases hx
  | _ => cases hx

lemma step_key {fs : List (Enclosure δ)} {ms : List (Text × Json δ)} {s : ParserState}
    (hs : s = .maybeObjectKey ∧ Closable d ms ∨ s = .expectObjectKey)
    (hx : A.lexeme ⟨s, .curly :: fs.map kind⟩ x = some (us, c')) :
    Reading d (openTokens d fs ++ .tok .openCurlyBracket :: membersBefore d ms ++ [x])
      (openEvents fs ++ .objectBegin :: traverseMembers ms ++ us) c' := by
  cases x with
  | tok t =>
    cases t with
    | closeCurlyBracket =>
      rcases hs with ⟨rfl, h⟩ | rfl
      · cases hx
        exact close_object h
      · cases hx
    | openCurlyBracket | openBracket =>
      rcases hs with ⟨rfl, -⟩ | rfl <;>
        cases (Automaton.lexeme_open rfl (by decide)).symm.trans hx
    | _ => rcases hs with ⟨rfl, -⟩ | rfl <;> cases hx
  | string k =>
    have h := Reading.colon (d := d) fs ms k
    rcases hs with ⟨rfl, -⟩ | rfl <;> cases hx <;>
      exact h.cast rfl (by simp [openEvents, events]) rfl
  | _ => rcases hs with ⟨rfl, -⟩ | rfl <;> cases hx

lemma step_colon {fs : List (Enclosure δ)} {ms : List (Text × Json δ)} {k : Text}
    (hx : A.lexeme ⟨.expectColon, .curly :: fs.map kind⟩ x = some (us, c')) :
    Reading d
      (openTokens d fs ++ .tok .openCurlyBracket :: membersBefore d ms ++ [.string k] ++ [x])
      (openEvents (.object ms k :: fs) ++ us) c' := by
  cases x with
  | tok t =>
    cases t with
    | colon =>
      cases hx
      exact (Reading.value (.object ms k :: fs)).cast (by simp [openTokens, tokens]) (by simp) rfl
    | openCurlyBracket | openBracket => cases (Automaton.lexeme_open rfl (by decide)).symm.trans hx
    | _ => cases hx
  | _ => cases hx

lemma step_done (h : A.lexeme ⟨.done, []⟩ x = some (us, c')) : False := by
  cases x with
  | tok t =>
    cases t with
    | openCurlyBracket | openBracket => cases (Automaton.lexeme_open rfl (by decide)).symm.trans h
    | _ => cases h
  | _ => cases h

theorem step (hA : A.afterEmptyArray = d.afterEmptyArray) (h : Reading d ts ev c)
    (hx : A.lexeme c x = some (us, c')) : Reading d (ts ++ [x]) (ev ++ us) c' := by
  cases h with
  | value fs => exact step_value hA hx
  | done v => exact (step_done hx).elim
  | element fs es v => exact step_element hx
  | maybeKey fs ms h => exact step_key (.inl ⟨rfl, h⟩) hx
  | key fs ms => exact step_key (.inr rfl) hx
  | colon fs ms k => exact step_colon hx
  | member fs ms k v h => exact step_member h hx

theorem of_run (hA : A.afterEmptyArray = d.afterEmptyArray)
    (h : A.machine.run .zero ts = (ev, .ok c)) : Reading d ts ev c :=
  A.machine.run_invariant (.value []) (fun _ _ _ _ _ _ h hx =>
    step hA h (Automaton.machine_step_ok.mp hx)) h

lemma openEvents_prefix (fs : List (Enclosure δ)) (v : Json δ) :
    ∃ w : Json δ, openEvents fs ++ traversal v <+: traversal w := by
  induction fs generalizing v with
  | nil => exact ⟨v, List.prefix_rfl⟩
  | cons f fs ih =>
    cases f with
    | array es =>
      obtain ⟨w, hw⟩ := ih (.array (es ++ [v]))
      refine ⟨w, List.IsPrefix.trans ⟨[.arrayEnd], ?_⟩ hw⟩
      simp [openEvents, events, traversal, traverseElements_append, traverseElements]
    | object ms k =>
      obtain ⟨w, hw⟩ := ih (.object (ms ++ [(k, v)]))
      refine ⟨w, List.IsPrefix.trans ⟨[.objectEnd], ?_⟩ hw⟩
      simp [openEvents, events, traversal, traverseMembers_append, traverseMembers]

theorem events_extend (h : Reading d ts ev c) : ∃ v : Json δ, ev <+: traversal v := by
  have hkey (fs : List (Enclosure δ)) (ms : List (Text × Json δ)) :
      ∃ v : Json δ, openEvents fs ++ .objectBegin :: traverseMembers ms <+: traversal v := by
    obtain ⟨w, hw⟩ := openEvents_prefix fs (.object ms)
    refine ⟨w, List.IsPrefix.trans ⟨[.objectEnd], ?_⟩ hw⟩
    simp [traversal]
  have hvalue (fs : List (Enclosure δ)) : ∃ v : Json δ, openEvents fs <+: traversal v := by
    obtain ⟨w, hw⟩ := openEvents_prefix fs .null
    exact ⟨w, (List.prefix_append _ _).trans hw⟩
  cases h with
  | value fs => exact hvalue fs
  | done v => exact ⟨v, List.prefix_rfl⟩
  | element fs es v => exact openEvents_prefix (.array es :: fs) v
  | maybeKey fs ms h => exact hkey fs ms
  | key fs ms => exact hkey fs ms
  | colon fs ms k => exact hvalue (.object ms k :: fs)
  | member fs ms k v h => exact openEvents_prefix (.object ms k :: fs) v

end Reading

theorem sound {A : Automaton} {d : Dialect} (hA : A.afterEmptyArray = d.afterEmptyArray)
    {ts : List (Lexeme δ)} {ev : List (UserCall δ)} {c : Conf}
    (h : A.machine.run .zero ts = (ev, .ok c)) (hc : c.state = .done) :
    ∃ v, ts = serialise d v ∧ ev = traversal v := by
  cases Reading.of_run hA h with
  | done v => exact ⟨v, rfl, rfl⟩
  | value fs => rcases fs with _ | ⟨(_ | _) | _, fs⟩ <;> cases hc
  | _ => cases hc

end Embedjson
