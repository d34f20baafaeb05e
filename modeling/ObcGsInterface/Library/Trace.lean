import ObcGsInterface.Library.Memory

/-! # Runs of a deterministic machine

A machine answers each call with a result and a new state. Calls that leave the state as it
is can be taken out of a run without a trace. -/

namespace Trace

open CArray

variable {σ κ ρ ε : Type} (step : σ → κ → Except ε (ρ × σ))

/-- Carry out calls one after another, and note what each of them returned. -/
def trace : σ → List κ → Except ε (List (κ × ρ) × σ)
  | s, [] => .ok ([], s)
  | s, call :: calls => do
      let (result, t) ← step s call
      let (history, final) ← trace t calls
      return ((call, result) :: history, final)

variable {step}

theorem trace_cons_eq_ok {s final : σ} {call : κ} {calls : List κ} {history : List (κ × ρ)} :
    trace step s (call :: calls) = .ok (history, final) ↔
      ∃ result t rest, step s call = .ok (result, t) ∧ trace step t calls = .ok (rest, final) ∧
        history = (call, result) :: rest := by
  rw [trace, bind_eq_ok]
  constructor
  · rintro ⟨⟨result, t⟩, hstep, hrest⟩
    rcases bind_eq_ok.mp hrest with ⟨⟨rest, u⟩, htrace, hend⟩
    simp only [pure_eq_ok, Except.ok.injEq, Prod.mk.injEq] at hend
    rcases hend with ⟨rfl, rfl⟩
    exact ⟨result, t, rest, hstep, htrace, rfl⟩
  · rintro ⟨result, t, rest, hstep, htrace, rfl⟩
    exact ⟨(result, t), hstep, by simp [htrace]⟩

/-- `kept` is `history` without some of its calls that may be taken out. -/
inductive Deleted (deletable : κ → ρ → Prop) : List (κ × ρ) → List (κ × ρ) → Prop where
  | nil : Deleted deletable [] []
  | keep (entry : κ × ρ) {history kept : List (κ × ρ)} (rest : Deleted deletable history kept) :
      Deleted deletable (entry :: history) (entry :: kept)
  | drop {call : κ} {result : ρ} (may : deletable call result) {history kept : List (κ × ρ)}
      (rest : Deleted deletable history kept) : Deleted deletable ((call, result) :: history) kept

/-- **Deletion.** When the calls that may be taken out leave the state as it is, the other
calls of a run return the same without them, and the run ends in the same state. -/
theorem trace_of_deleted {deletable : κ → ρ → Prop}
    (hidle : ∀ s call result t, step s call = .ok (result, t) → deletable call result → t = s)
    {s final : σ} {calls : List κ} {history kept : List (κ × ρ)}
    (h : trace step s calls = .ok (history, final)) (hkept : Deleted deletable history kept) :
    trace step s (kept.map Prod.fst) = .ok (kept, final) := by
  induction hkept generalizing s calls with
  | nil =>
      cases calls with
      | nil => exact h
      | cons call calls =>
          rcases trace_cons_eq_ok.mp h with ⟨result, t, rest, -, -, hhistory⟩
          contradiction
  | keep entry rest ih =>
      cases calls with
      | nil => cases h
      | cons call calls =>
          rcases trace_cons_eq_ok.mp h with ⟨result, t, history, hstep, htrace, hhistory⟩
          rcases List.cons.inj hhistory with ⟨rfl, rfl⟩
          exact trace_cons_eq_ok.mpr ⟨result, t, _, hstep, ih htrace, rfl⟩
  | drop may rest ih =>
      cases calls with
      | nil => cases h
      | cons call calls =>
          rcases trace_cons_eq_ok.mp h with ⟨result, t, history, hstep, htrace, hhistory⟩
          rcases List.cons.inj hhistory with ⟨hentry, rfl⟩
          rcases Prod.mk.inj hentry with ⟨rfl, rfl⟩
          have hsame := hidle s _ _ t hstep may
          subst hsame
          exact ih htrace

end Trace
