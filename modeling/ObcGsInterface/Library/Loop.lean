import ObcGsInterface.Library.Memory
import Mathlib.Logic.Relation

/-! # Loops

A `while` loop runs with a bound on its number of rounds. Reaching the bound is the fault
`nonTermination`, so that a result `.ok` shows that the loop ends by itself. -/

namespace Loop

open CArray

variable {σ : Type} (guard : σ → Except Fault Bool) (body : σ → Except Fault σ)

/-- `while (guard) body`, cut off after `fuel` rounds. -/
def whileLoop : ℕ → σ → Except Fault σ
  | 0, _ => .error .nonTermination
  | fuel + 1, s => do
      if ← guard s then
        let s ← body s
        whileLoop fuel s
      else return s

variable {guard body}

/-- A loop whose `k`-th round ends in a state of stage `k + 1` leaves in stage `n`. -/
theorem whileLoop_stages {Stage : ℕ → σ → Prop} {n : ℕ}
    (hguard : ∀ k s, k ≤ n → Stage k s → guard s = .ok (decide (k < n)))
    (hbody : ∀ k s, k < n → Stage k s → ∃ s', body s = .ok s' ∧ Stage (k + 1) s')
    {fuel k : ℕ} {s : σ} (hk : k ≤ n) (hfuel : n - k < fuel) (hs : Stage k s) :
    ∃ s', whileLoop guard body fuel s = .ok s' ∧ Stage n s' := by
  induction fuel generalizing k s with
  | zero => omega
  | succ fuel ih =>
      rcases Nat.eq_or_lt_of_le hk with rfl | hlt
      · exact ⟨s, by simp [whileLoop, hguard k s hk hs], hs⟩
      · obtain ⟨s₁, hs₁, hstage⟩ := hbody k s hlt hs
        obtain ⟨s', hs', hn⟩ := ih hlt (by omega) hstage
        exact ⟨s', by simp [whileLoop, hguard k s hk hs, hlt, hs₁, hs'], hn⟩

/-- A loop whose rounds keep an invariant and lower a measure ends, with the invariant and
without its condition. -/
theorem whileLoop_of_measure {Inv : σ → Prop} (measure : σ → ℕ)
    (hguard : ∀ s, Inv s → ∃ b, guard s = .ok b)
    (hbody : ∀ s, Inv s → guard s = .ok true →
      ∃ s', body s = .ok s' ∧ Inv s' ∧ measure s' < measure s)
    {fuel : ℕ} {s : σ} (hfuel : measure s < fuel) (hs : Inv s) :
    ∃ s', whileLoop guard body fuel s = .ok s' ∧ Inv s' ∧ guard s' = .ok false := by
  induction fuel generalizing s with
  | zero => omega
  | succ fuel ih =>
      obtain ⟨b, hb⟩ := hguard s hs
      cases b with
      | false => exact ⟨s, by simp [whileLoop, hb], hs, hb⟩
      | true =>
          obtain ⟨s₁, hs₁, hinv, hlt⟩ := hbody s hs hb
          obtain ⟨s', hs', hend⟩ := ih (by omega) hinv
          exact ⟨s', by simp [whileLoop, hb, hs₁, hs'], hend⟩

/-- A loop whose condition holds in every state that its rounds can reach never returns,
however many rounds it is given. -/
theorem whileLoop_forever {Inv : σ → Prop} (hguard : ∀ s, Inv s → guard s = .ok true)
    (hbody : ∀ s, Inv s → ∃ s', body s = .ok s' ∧ Inv s') (fuel : ℕ) {s : σ} (hs : Inv s) :
    whileLoop guard body fuel s = .error .nonTermination := by
  induction fuel generalizing s with
  | zero => rfl
  | succ fuel ih =>
      obtain ⟨s₁, hs₁, hinv⟩ := hbody s hs
      simp [whileLoop, hguard s hs, hs₁, ih hinv]

variable (guard body) in
/-- One round of the loop, from a state in which its condition holds. -/
def Round (s s' : σ) : Prop := guard s = .ok true ∧ body s = .ok s'

/-- Every state that the rounds of a loop can reach is at some stage. -/
theorem stage_of_reaches {Stage : ℕ → σ → Prop} {n : ℕ}
    (hguard : ∀ k s, k ≤ n → Stage k s → guard s = .ok (decide (k < n)))
    (hbody : ∀ k s, k < n → Stage k s → ∃ s', body s = .ok s' ∧ Stage (k + 1) s')
    {k : ℕ} {s t : σ} (hk : k ≤ n) (hs : Stage k s)
    (h : Relation.ReflTransGen (Round guard body) s t) : ∃ j ≤ n, Stage j t := by
  induction h with
  | refl => exact ⟨k, hk, hs⟩
  | @tail u v _ hround ih =>
      obtain ⟨j, hj, hstage⟩ := ih
      have hlt : j < n := by simpa [hround.1] using hguard j u hj hstage
      obtain ⟨v', hv', hnext⟩ := hbody j u hlt hstage
      obtain rfl : v = v' := by simpa [hround.2] using hv'
      exact ⟨j + 1, hlt, hnext⟩

/-! ## Counted loops -/

/-- A counted loop whose round `i` takes stage `i` to stage `i + 1`. -/
theorem foldlM_range'_stages {body : σ → ℕ → Except Fault σ} {Stage : ℕ → σ → Prop} {n : ℕ}
    (hbody : ∀ i s, i < n → Stage i s → ∃ s', body s i = .ok s' ∧ Stage (i + 1) s')
    {start count : ℕ} {s : σ} (hend : start + count = n) (hs : Stage start s) :
    ∃ s', (List.range' start count).foldlM body s = .ok s' ∧ Stage n s' := by
  induction count generalizing start s with
  | zero =>
      obtain rfl : start = n := by omega
      exact ⟨s, rfl, hs⟩
  | succ count ih =>
      obtain ⟨s₁, hs₁, hstage⟩ := hbody start s (by omega) hs
      obtain ⟨s', hs', hn⟩ := ih (by omega) hstage
      exact ⟨s', by rw [List.range'_succ, List.foldlM_cons, hs₁, ok_bind, hs'], hn⟩

/-- The same for a loop that is known to return: what its rounds keep when they return holds
at its end. -/
theorem foldlM_range'_of_ok {body : σ → ℕ → Except Fault σ} {Stage : ℕ → σ → Prop} {n : ℕ}
    (hbody : ∀ i s s', i < n → Stage i s → body s i = .ok s' → Stage (i + 1) s')
    {start count : ℕ} {s s' : σ} (hend : start + count = n) (hs : Stage start s)
    (h : (List.range' start count).foldlM body s = .ok s') : Stage n s' := by
  induction count generalizing start s with
  | zero =>
      obtain rfl : start = n := by omega
      cases h
      exact hs
  | succ count ih =>
      rw [List.range'_succ, List.foldlM_cons] at h
      obtain ⟨s₁, hround, hrest⟩ := bind_eq_ok.mp h
      exact ih (by omega) (hbody start s s₁ (by omega) hs hround) hrest

theorem foldlM_range_stages {body : σ → ℕ → Except Fault σ} {Stage : ℕ → σ → Prop} {n : ℕ}
    (hbody : ∀ i s, i < n → Stage i s → ∃ s', body s i = .ok s' ∧ Stage (i + 1) s')
    {s : σ} (hs : Stage 0 s) :
    ∃ s', (List.range n).foldlM body s = .ok s' ∧ Stage n s' := by
  rw [List.range_eq_range']
  exact foldlM_range'_stages hbody (Nat.zero_add n) hs

/-- A loop that counts down to 0. -/
theorem foldlM_reverse_range_stages {body : σ → ℕ → Except Fault σ} {Stage : ℕ → σ → Prop} {n : ℕ}
    (hbody : ∀ i s, i < n → Stage (i + 1) s → ∃ s', body s i = .ok s' ∧ Stage i s')
    {s : σ} (hs : Stage n s) :
    ∃ s', (List.range n).reverse.foldlM body s = .ok s' ∧ Stage 0 s' := by
  induction n generalizing s with
  | zero => exact ⟨s, rfl, hs⟩
  | succ n ih =>
      obtain ⟨s₁, hs₁, hstage⟩ := hbody n s (Nat.lt_succ_self n) hs
      obtain ⟨s', hs', hend⟩ := ih (fun i s hi => hbody i s (Nat.lt_succ_of_lt hi)) hstage
      refine ⟨s', ?_, hend⟩
      rw [List.range_succ, List.reverse_append, List.reverse_singleton, List.singleton_append,
        List.foldlM_cons, hs₁, ok_bind, hs']

/-- A loop that counts down to 0 and stores one cell in every round. A round may read the cells
that the loop has not come to yet. -/
theorem foldlM_reverse_store {α : Type} {capacity : ℕ} (fallback : α) (n shift : ℕ)
    (body : Block α capacity → ℕ → Except Fault (Block α capacity)) (value : ℕ → α)
    (block : Block α capacity) (hroom : n + shift ≤ capacity)
    (hbody : ∀ (s : Block α capacity) i, i < n →
      (∀ k ≤ i + shift, s.cells.getD k fallback = block.cells.getD k fallback) →
      body s i = s.store (i + shift) (value i)) :
    ∃ result, (List.range n).reverse.foldlM body block = .ok result ∧
      ∀ k, result.cells.getD k fallback =
        if shift ≤ k ∧ k < n + shift then value (k - shift) else block.cells.getD k fallback := by
  obtain ⟨result, hrun, hstage⟩ := @foldlM_reverse_range_stages _ body
    (fun t s => ∀ k, s.cells.getD k fallback =
      if t + shift ≤ k ∧ k < n + shift then value (k - shift) else block.cells.getD k fallback)
    n
    (fun i s hi hs => by
      have hlow : ∀ k ≤ i + shift, s.cells.getD k fallback = block.cells.getD k fallback := by
        intro k hk
        rw [hs k, if_neg (by omega)]
      obtain ⟨result, hstore, hresult⟩ := s.store_getD (i := i + shift) (value i) fallback
        (by omega)
      refine ⟨result, (hbody s i hi hlow).trans hstore, fun k => ?_⟩
      rw [hresult, hs]
      by_cases hk : i + shift = k
      · rw [if_pos hk, if_pos (by omega), ← hk, Nat.add_sub_cancel]
      · rw [if_neg hk]
        congr 1
        rw [eq_iff_iff]
        omega)
    block (fun k => by rw [if_neg (by omega)])
  refine ⟨result, hrun, fun k => ?_⟩
  rw [hstage, Nat.zero_add]

/-- A counted loop that reads one cell of a buffer in every round. -/
theorem foldlM_load {α : Type} (step : σ → α → σ) {data : List α} {n : ℕ} (h : n ≤ data.length)
    (s : σ) :
    (List.range n).foldlM (fun s i => do return step s (← load data i)) s =
      .ok ((data.take n).foldl step s) := by
  induction n with
  | zero => rfl
  | succ n ih =>
      rw [List.range_succ, List.foldlM_append, ih (by omega), ok_bind, List.foldlM_cons,
        load_of_lt _ h, ok_bind, pure_eq_ok, ok_bind, List.foldlM_nil, List.take_add_one,
        List.getElem?_eq_getElem h, Option.toList_some, List.foldl_append]
      rfl

end Loop
