import Embedjson.Lexer.Departures

/-! The loop of a push under any answers. Its cursor steps back in four branches, and the byte that it
comes to again is not left behind a second time. -/

namespace Embedjson

open Foundations Foundations.Program

variable {δ : Type} {cfg : Config} {chunk : List UInt8} {c : Cursor} {b : UInt8}

section Visits

def LexerState.unreads : LexerState → Bool
  | .inNumber | .inNumberFrac | .inNumberExp | .inBigNumber => true
  | _ => false

lemma Lexer.unreads_of_endsNumber {lex : Lexer} (h : lex.endsNumber b = true) :
    lex.state.unreads = true := by
  cases hs : lex.state with
  | inNumber | inNumberFrac | inNumberExp | inBigNumber => rfl
  | _ => simp [Lexer.endsNumber, hs] at h

/-- One evaluation of `*data` in the loop: where, in which state, and where the `switch` left `data`,
unless it returned. -/
structure Visit where
  index : ℤ
  state : LexerState
  left : Option ℤ
  deriving DecidableEq, Repr

variable [DoubleArith δ] (cfg chunk)

def loopVisits : ℕ → Cursor → Program (LexerCall δ) (List Visit × Option (Flow Cursor))
  | 0, _ => .done ([], none)
  | fuel + 1, c =>
    if c.data = chunk.length then .done ([], some (.ok c))
    else match deref chunk c.data with
      | none => .done ([⟨c.data, c.lex.state, none⟩], none)
      | some b =>
        (dispatch cfg chunk { c with lex := recordMagic c.lex b } b).bind fun
          | .error r => .done ([⟨c.data, c.lex.state, none⟩], some (.error r))
          | .ok c' => (loopVisits fuel { c' with data := c'.data + 1 }).bind fun a =>
              .done (⟨c.data, c.lex.state, some c'.data⟩ :: a.1, a.2)

lemma loopVisits_forget (fuel : ℕ) (c : Cursor) :
    ((loopVisits cfg chunk fuel c).bind fun a => .done a.2 : Program (LexerCall δ) _) =
      loop cfg chunk fuel c := by
  induction fuel generalizing c with
  | zero => rfl
  | succ fuel ih =>
    rw [loopVisits, loop]
    split_ifs
    · rfl
    · cases deref chunk c.data with
      | none => rfl
      | some b =>
        dsimp only
        rw [bind_assoc]
        congr 1
        funext r
        cases r with
        | error r => rfl
        | ok c' =>
          dsimp only
          rw [bind_assoc, ← ih]
          rfl

variable {cfg chunk}

lemma loopVisits_visit {P : List Visit × Option (Flow Cursor) → Prop} {fuel : ℕ}
    (hb : deref chunk c.data = some b) (hlen : c.data < chunk.length)
    (hrefused : ∀ r, P ([⟨c.data, c.lex.state, none⟩], some (.error r)))
    (hstay : ∀ c', c'.data = c.data + 1 → Returns
      (fun a => P (⟨c.data, c.lex.state, some c.data⟩ :: a.1, a.2))
      (loopVisits cfg chunk fuel c' : Program (LexerCall δ) _))
    (hback : c.lex.state.unreads = true → ∀ c', c'.data = c.data → c'.lex.state = .lookupToken →
      Returns (fun a => P (⟨c.data, c.lex.state, some (c.data - 1)⟩ :: a.1, a.2))
        (loopVisits cfg chunk fuel c' : Program (LexerCall δ) _)) :
    Returns P (loopVisits cfg chunk (fuel + 1) c : Program (LexerCall δ) _) := by
  rw [loopVisits, if_neg hlen.ne, hb]
  refine (dispatch_departs cfg chunk { c with lex := recordMagic c.lex b } b).returns.bind fun r hr => ?_
  rcases r with r | c'
  · exact hrefused r
  · dsimp only
    rcases hr with hdata | ⟨hs, hs', hdata⟩
    · have hdata' : c'.data = c.data := hdata
      rw [hdata']
      exact (hstay { c' with data := c.data + 1 } rfl).bind fun _ h => h
    · have hdata' : c'.data = c.data - 1 := hdata
      rw [hdata', sub_add_cancel]
      exact (hback (by simpa using Lexer.unreads_of_endsNumber hs) { c' with data := c.data } rfl
        hs').bind fun _ h => h

lemma loop_more_fuel {fuel : ℕ} (h : Returns (fun a => a ≠ none)
    (loop cfg chunk fuel c : Program (LexerCall δ) _)) (extra : ℕ) :
    (loop cfg chunk (fuel + extra) c : Program (LexerCall δ) _) = loop cfg chunk fuel c := by
  induction fuel generalizing c with
  | zero => exact absurd rfl h
  | succ fuel ih =>
    rw [Nat.add_right_comm, loop, loop]
    rw [loop] at h
    by_cases hend : c.data = chunk.length
    · rw [if_pos hend, if_pos hend]
    · rw [if_neg hend, if_neg hend]
      rw [if_neg hend] at h
      cases hb : deref chunk c.data with
      | none => rfl
      | some b =>
        rw [hb] at h
        dsimp only at h ⊢
        refine Returns.bind_congr ((returns_bind.mp h).mono fun r hr => ?_)
        cases r with
        | error r => rfl
        | ok c' => exact ih hr

end Visits

section Bytes

def visitsAt (i : ℤ) (visits : List Visit) : List Visit := visits.filter fun v => v.index = i

/-- The visits to one byte: a single one, or one that goes back and one from `lookupToken`. The last
one leaves `data` at `left`. -/
inductive ByteVisits (i : ℤ) (left : Option ℤ) : List Visit → Prop
  | once (state : LexerState) : ByteVisits i left [⟨i, state, left⟩]
  | twice {state : LexerState} (hs : state.unreads = true) :
      ByteVisits i left [⟨i, state, some (i - 1)⟩, ⟨i, .lookupToken, left⟩]

variable {size first i : ℤ} {v : Visit} {visits : List Visit} {flow : Option (Flow Cursor)}

lemma visitsAt_append (i : ℤ) (visits later : List Visit) :
    visitsAt i (visits ++ later) = visitsAt i visits ++ visitsAt i later := List.filter_append _ _

lemma visitsAt_of_ne (h : ∀ v ∈ visits, v.index ≠ i) : visitsAt i visits = [] :=
  List.filter_eq_nil_iff.mpr fun v hv => by simpa using h v hv

lemma ByteVisits.index_eq {left : Option ℤ} (h : ByteVisits i left visits) :
    ∀ v ∈ visits, v.index = i := by
  cases h with
  | once state => simp
  | twice hs => simp

lemma ByteVisits.visitsAt_eq {left : Option ℤ} (h : ByteVisits i left visits) :
    visitsAt i visits = visits :=
  List.filter_eq_self.mpr fun v hv => by simpa using h.index_eq v hv

lemma ByteVisits.ordered {left : Option ℤ} (h : ByteVisits i left visits) :
    visits.Pairwise fun v w => v.index ≤ w.index := by
  cases h with
  | once state => exact List.pairwise_singleton _ _
  | twice hs => simp

structure Progresses (size first : ℤ) (visits : List Visit) (flow : Option (Flow Cursor)) : Prop where
  inside : ∀ v ∈ visits, first ≤ v.index ∧ v.index < size
  ordered : visits.Pairwise fun v w => v.index ≤ w.index
  ends : flow ≠ none
  whole : ∀ c, flow = some (.ok c) → c.data = size ∧
    ∀ i, first ≤ i → i < size → ByteVisits i (some i) (visitsAt i visits)
  refused : ∀ r, flow = some (.error r) → ∃ last, first ≤ last ∧ last < size ∧
    (∀ i, first ≤ i → i < last → ByteVisits i (some i) (visitsAt i visits)) ∧
    ByteVisits last none (visitsAt last visits) ∧ ∀ v ∈ visits, v.index ≤ last

lemma Progresses.prepend {at_ : List Visit} (hi : i < size) (hat : ByteVisits i (some i) at_)
    (h : Progresses size (i + 1) visits flow) : Progresses size i (at_ ++ visits) flow := by
  have hhere : visitsAt i (at_ ++ visits) = at_ := by
    rw [visitsAt_append, hat.visitsAt_eq, visitsAt_of_ne, List.append_nil]
    intro v hv
    have hv' := h.inside v hv
    omega
  have hbehind {k : ℤ} (hk : i < k) : visitsAt k (at_ ++ visits) = visitsAt k visits := by
    rw [visitsAt_append, visitsAt_of_ne, List.nil_append]
    intro v hv
    rw [hat.index_eq v hv]
    exact hk.ne
  have hvisits {k : ℤ} (hk : i ≤ k) (hrest : i + 1 ≤ k → ByteVisits k (some k) (visitsAt k visits)) :
      ByteVisits k (some k) (visitsAt k (at_ ++ visits)) := by
    rcases hk.eq_or_lt with rfl | hk
    · rw [hhere]
      exact hat
    · rw [hbehind hk]
      exact hrest hk
  constructor
  case inside =>
    intro v hv
    rcases List.mem_append.mp hv with hv | hv
    · rw [hat.index_eq v hv]
      exact ⟨le_rfl, hi⟩
    · have hv' := h.inside v hv
      omega
  case ordered =>
    refine List.pairwise_append.mpr ⟨hat.ordered, h.ordered, fun v hv w hw => ?_⟩
    have hw' := h.inside w hw
    rw [hat.index_eq v hv]
    omega
  case ends => exact h.ends
  case whole =>
    intro c hc
    obtain ⟨hdata, hrest⟩ := h.whole c hc
    exact ⟨hdata, fun k hk hsize => hvisits hk fun hk => hrest k hk hsize⟩
  case refused =>
    intro r hr
    obtain ⟨last, hlast, hsize, hrest, hend, hmax⟩ := h.refused r hr
    refine ⟨last, by omega, hsize, fun k hk hl => hvisits hk fun hk => hrest k hk hl, ?_, ?_⟩
    · rw [hbehind (by omega)]
      exact hend
    · intro v hv
      rcases List.mem_append.mp hv with hv | hv
      · rw [hat.index_eq v hv]
        omega
      · exact hmax v hv

lemma progresses_end {c : Cursor} (hc : c.data = size) : Progresses size size [] (some (.ok c)) where
  inside := by simp
  ordered := .nil
  ends := nofun
  whole := fun c' hc' => by
    cases hc'
    exact ⟨hc, fun k hk hsize => absurd hsize hk.not_gt⟩
  refused := nofun

lemma ByteVisits.progresses (h : ByteVisits i none visits) (hi : i < size) (r : ℤ) :
    Progresses size i visits (some (.error r)) := by
  refine ⟨fun v hv => ?_, h.ordered, nofun, fun c hc => ?_, fun _ _ => ?_⟩
  · rw [h.index_eq v hv]
    exact ⟨le_rfl, hi⟩
  · cases hc
  · refine ⟨i, le_rfl, hi, fun k hk hl => absurd hl hk.not_gt, ?_, fun v hv => (h.index_eq v hv).le⟩
    rw [h.visitsAt_eq]
    exact h

end Bytes

section Runs

variable [DoubleArith δ]

lemma loopVisits_progresses (n fuel : ℕ) (hf : 2 * n + 1 ≤ fuel) (hn : c.data + n = chunk.length)
    (h₀ : 0 ≤ c.data) :
    Returns (fun a => Progresses chunk.length c.data a.1 a.2)
      (loopVisits cfg chunk fuel c : Program (LexerCall δ) _) := by
  induction n generalizing fuel c with
  | zero =>
    obtain ⟨fuel, rfl⟩ : ∃ k, fuel = k + 1 := ⟨fuel - 1, by omega⟩
    have hd : c.data = chunk.length := by simpa using hn
    rw [loopVisits, if_pos hd, hd]
    exact progresses_end hd
  | succ n ih =>
    obtain ⟨fuel, rfl⟩ : ∃ k, fuel = k + 2 := ⟨fuel - 2, by omega⟩
    have hlen : c.data < chunk.length := by omega
    obtain ⟨b, hb, -⟩ := deref_drop h₀ hlen
    have hrest (k : ℕ) (hk : 2 * n + 1 ≤ k) (c' : Cursor) (hdata : c'.data = c.data + 1) :
        Returns (fun a => Progresses chunk.length (c.data + 1) a.1 a.2)
          (loopVisits cfg chunk k c' : Program (LexerCall δ) _) := by
      have h := ih k hk (c := c') (by omega) (by omega)
      rwa [hdata] at h
    refine loopVisits_visit hb hlen (fun r => (ByteVisits.once _).progresses hlen r)
      (fun c' hdata => ?_) fun hs c' hdata hs' => ?_
    · exact (hrest (fuel + 1) (by omega) c' hdata).mono fun a h => .prepend hlen (.once _) h
    · have hb' : deref chunk c'.data = some b := by rw [hdata, hb]
      refine loopVisits_visit hb' (by omega) (fun r => ?_) (fun c'' hdata' => ?_) fun hs'' => ?_
      · rw [hdata, hs']
        exact (ByteVisits.twice hs).progresses hlen r
      · rw [hdata, hs']
        rw [hdata] at hdata'
        exact (hrest fuel (by omega) c'' hdata').mono fun a h => .prepend hlen (.twice hs) h
      · rw [hs'] at hs''
        cases hs''

variable (cfg) in
/-- Two dispatches for every byte of the chunk are enough, whatever the answers and the lexer are, and
more do not happen. -/
theorem push_loop_progresses (lexer : Lexer) (chunk : List UInt8) (extra : ℕ) :
    (loopVisits cfg chunk (2 * chunk.length + 1 + extra) (start lexer)).bind (fun a => .done a.2) =
        (loop cfg chunk (2 * chunk.length + 1) (start lexer) : Program (LexerCall δ) _) ∧
      Returns (fun a => Progresses chunk.length 0 a.1 a.2)
        (loopVisits cfg chunk (2 * chunk.length + 1 + extra) (start lexer) :
          Program (LexerCall δ) _) := by
  have hprogresses (k : ℕ) (hk : 2 * chunk.length + 1 ≤ k) :
      Returns (fun a => Progresses chunk.length 0 a.1 a.2)
        (loopVisits cfg chunk k (start lexer) : Program (LexerCall δ) _) :=
    loopVisits_progresses (c := start lexer) chunk.length k hk (zero_add (chunk.length : ℤ)) le_rfl
  refine ⟨?_, hprogresses _ (Nat.le_add_right _ _)⟩
  rw [loopVisits_forget]
  refine loop_more_fuel ?_ extra
  rw [← loopVisits_forget]
  exact (hprogresses _ le_rfl).bind fun a h => h.ends

end Runs

end Embedjson
