import ObcGsInterface.Library.Trace
import ObcGsInterface.Verification.Pipeline.Codeword

/-! # The Reed-Solomon instance

The functions of `obc_gs_fec.c` share one static pointer. `initRs` creates an instance only
while the pointer is `NULL`, and `destroyRs` does not reset it, so that after the first
`destroyRs` of an instance nothing can bring one back. -/

namespace ObcGsInterface

open CArray Trace

/-! ## Calls -/

/-- A call, with arrays of the sizes that the functions access. -/
inductive RsCall where
  | initRs
  | destroyRs
  | rsEncode (telemData : Option (Block Byte rsDecodedSize))
      (rsData : Option (Block Byte rsEncodedSize))
  | rsDecode (rsData : Option (Block Byte rsEncodedSize))
      (decodedData : Option (Block Byte rsDecodedSize)) (decodedDataLen : Byte)
  deriving DecidableEq

/-- What a call leaves in its output argument. -/
inductive RsOutput where
  | nothing
  | encoded (rsData : Option (Block Byte rsEncodedSize))
  | decoded (decodedData : Option (Block Byte rsDecodedSize))

/-- Carry out a call. -/
def RsCall.exec (decoder : RsDecoder) (rs : RsHandle) :
    RsCall → Except Fault ((ErrorCode × RsOutput) × RsHandle)
  | .initRs => .ok ((.success, .nothing), ObcGsInterface.initRs rs)
  | .destroyRs => do
      let rs ← ObcGsInterface.destroyRs rs
      return ((.success, .nothing), rs)
  | .rsEncode telemData rsData => do
      let (err, rsData) ← ObcGsInterface.rsEncode rs (telemData.map Block.cells) rsData
      return ((err, .encoded rsData), rs)
  | .rsDecode rsData decodedData decodedDataLen => do
      let (err, decodedData) ← ObcGsInterface.rsDecode decoder rs rsData decodedData
        decodedDataLen.toNat
      return ((err, .decoded decodedData), rs)

/-- The call passes its argument checks and goes to the instance. -/
def RsCall.UsesInstance : RsCall → Prop
  | .rsEncode (some _) (some _) => True
  | .rsDecode (some _) (some _) decodedDataLen => rsDecodedSize ≤ decodedDataLen.toNat
  | _ => False

/-- The call neither goes to the instance nor destroys it. -/
def RsCall.AvoidsInstance (call : RsCall) : Prop :=
  call ≠ .destroyRs ∧ ¬ call.UsesInstance

/-- Between the start or any `destroyRs` and the next `rsEncode` or `rsDecode` there is an
`initRs`; `ready` says that there has been one since. -/
def InitialisedBeforeUse : Bool → List RsCall → Prop
  | _, [] => True
  | _, .initRs :: calls => InitialisedBeforeUse true calls
  | _, .destroyRs :: calls => InitialisedBeforeUse false calls
  | ready, .rsEncode _ _ :: calls => ready = true ∧ InitialisedBeforeUse ready calls
  | ready, .rsDecode _ _ _ :: calls => ready = true ∧ InitialisedBeforeUse ready calls

/-- The calls run to their end, without the use of a pointer that is `NULL` or points to a
destroyed instance, and without the destruction of a destroyed instance. -/
def RunsOn (decoder : RsDecoder) (rs : RsHandle) (calls : List RsCall) : Prop :=
  ∃ history final, trace (RsCall.exec decoder) rs calls = .ok (history, final)

section Runs

variable {decoder : RsDecoder}

theorem runsOn_nil (rs : RsHandle) : RunsOn decoder rs [] :=
  ⟨[], rs, rfl⟩

theorem runsOn_cons {rs : RsHandle} {call : RsCall} {calls : List RsCall} :
    RunsOn decoder rs (call :: calls) ↔
      ∃ result t, RsCall.exec decoder rs call = .ok (result, t) ∧ RunsOn decoder t calls := by
  constructor
  · rintro ⟨history, final, h⟩
    rcases trace_cons_eq_ok.mp h with ⟨result, t, rest, hstep, htrace, -⟩
    exact ⟨result, t, hstep, rest, final, htrace⟩
  · rintro ⟨result, t, hstep, rest, final, htrace⟩
    exact ⟨_, final, trace_cons_eq_ok.mpr ⟨result, t, rest, hstep, htrace, rfl⟩⟩

/-- After a call that returns, the run goes on with the other calls. -/
theorem runsOn_cons_of_exec {rs t : RsHandle} {call : RsCall} {calls : List RsCall}
    (h : ∃ result, RsCall.exec decoder rs call = .ok (result, t)) :
    RunsOn decoder rs (call :: calls) ↔ RunsOn decoder t calls := by
  obtain ⟨result, hstep⟩ := h
  rw [runsOn_cons]
  constructor
  · rintro ⟨result', t', hstep', hrest⟩
    rw [hstep, Except.ok.injEq, Prod.mk.injEq] at hstep'
    rw [hstep'.2]
    exact hrest
  · intro hrest
    exact ⟨result, t, hstep, hrest⟩

/-! ## Single calls -/

/-- `rsDecode` returns on an instance, whatever the decoder finds. -/
theorem rsDecode_created (decoder : RsDecoder) (word : Option (Block Byte rsEncodedSize))
    (out : Option (Block Byte rsDecodedSize)) (decodedDataLen : ℕ) :
    ∃ decoded, rsDecode decoder (.created ccsdsReedSolomon) word out decodedDataLen =
      .ok decoded := by
  cases word with
  | none => exact ⟨_, rfl⟩
  | some word =>
      cases out with
      | none => exact ⟨_, rfl⟩
      | some out =>
          by_cases hlen : decodedDataLen < rsDecodedSize
          · simp [rsDecode, hlen]
          · cases hfound : decoder ccsdsReedSolomon word with
            | none => simp [rsDecode, hlen, RsHandle.deref, hfound]
            | some message =>
                have hcopy := Block.memcpy_whole out message
                simp [rsDecode, hlen, RsHandle.deref, hfound, hcopy]

/-- With an instance, every call but `destroyRs` returns and keeps the pointer. -/
theorem RsCall.exec_created {call : RsCall} (h : call ≠ .destroyRs) :
    ∃ result, call.exec decoder (.created ccsdsReedSolomon) =
      .ok (result, .created ccsdsReedSolomon) := by
  cases call with
  | initRs => exact ⟨_, rfl⟩
  | destroyRs => contradiction
  | rsEncode telemData rsData =>
      cases telemData with
      | none => exact ⟨_, rfl⟩
      | some message =>
          cases rsData with
          | none => exact ⟨_, rfl⟩
          | some out =>
              have hrun := rsEncode_eq message out
              rw [initRs_null] at hrun
              simp [RsCall.exec, hrun]
  | rsDecode rsData decodedData decodedDataLen =>
      rcases rsDecode_created decoder rsData decodedData decodedDataLen.toNat with ⟨decoded, hrun⟩
      simp [RsCall.exec, hrun]

/-- Once the instance is destroyed, a call that avoids it returns and keeps the pointer. -/
theorem RsCall.exec_destroyed {call : RsCall} (h : call.AvoidsInstance) :
    ∃ result, call.exec decoder .destroyed = .ok (result, .destroyed) := by
  cases call with
  | initRs => exact ⟨_, rfl⟩
  | destroyRs => exact absurd rfl h.1
  | rsEncode telemData rsData =>
      cases telemData with
      | none => exact ⟨_, rfl⟩
      | some message =>
          cases rsData with
          | none => exact ⟨_, rfl⟩
          | some out => exact absurd trivial h.2
  | rsDecode rsData decodedData decodedDataLen =>
      cases rsData with
      | none => exact ⟨_, rfl⟩
      | some word =>
          cases decodedData with
          | none => exact ⟨_, rfl⟩
          | some out =>
              have hlen : decodedDataLen.toNat < rsDecodedSize := Nat.not_le.mp h.2
              simp [RsCall.exec, ObcGsInterface.rsDecode, hlen]

/-- Once the instance is destroyed, a call that does not avoid it uses it all the same. -/
theorem RsCall.exec_destroyed_error {call : RsCall} (h : ¬ call.AvoidsInstance) :
    call.exec decoder .destroyed = .error .invalidPointer := by
  cases call with
  | initRs => exact absurd ⟨by decide, id⟩ h
  | destroyRs => rfl
  | rsEncode telemData rsData =>
      rcases telemData, rsData with ⟨_ | message, _ | out⟩
      · exact absurd ⟨nofun, id⟩ h
      · exact absurd ⟨nofun, id⟩ h
      · exact absurd ⟨nofun, id⟩ h
      · rfl
  | rsDecode rsData decodedData decodedDataLen =>
      rcases rsData, decodedData with ⟨_ | word, _ | out⟩
      · exact absurd ⟨nofun, id⟩ h
      · exact absurd ⟨nofun, id⟩ h
      · exact absurd ⟨nofun, id⟩ h
      · have hlen : ¬ decodedDataLen.toNat < rsDecodedSize := fun hshort =>
          h ⟨nofun, Nat.not_le.mpr hshort⟩
        simp [RsCall.exec, ObcGsInterface.rsDecode, hlen, RsHandle.deref]

/-! ## Runs -/

/-- Once the instance is destroyed, exactly the runs without a use of it go on. -/
theorem runsOn_destroyed {calls : List RsCall} :
    RunsOn decoder .destroyed calls ↔ ∀ call ∈ calls, call.AvoidsInstance := by
  induction calls with
  | nil => exact iff_of_true (runsOn_nil _) (List.forall_mem_nil _)
  | cons call calls ih =>
      rw [List.forall_mem_cons]
      by_cases hcall : call.AvoidsInstance
      · rw [runsOn_cons_of_exec (RsCall.exec_destroyed hcall), ih]
        exact (and_iff_right hcall).symm
      · refine iff_of_false ?_ fun h => hcall h.1
        intro hruns
        rcases runsOn_cons.mp hruns with ⟨result, t, hstep, -⟩
        rw [RsCall.exec_destroyed_error hcall] at hstep
        contradiction

/-- What a run with an instance may do after the first `destroyRs`. -/
def AvoidedAfterDestroy (calls : List RsCall) : Prop :=
  ∀ middle back, calls = middle ++ .destroyRs :: back → ∀ call ∈ back, call.AvoidsInstance

theorem avoidedAfterDestroy_cons {call : RsCall} {calls : List RsCall} (h : call ≠ .destroyRs) :
    AvoidedAfterDestroy (call :: calls) ↔ AvoidedAfterDestroy calls := by
  constructor
  · rintro hcalls middle back rfl
    exact hcalls (call :: middle) back rfl
  · intro hcalls middle back hsplit
    cases middle with
    | nil => exact absurd (List.cons.inj hsplit).1 h
    | cons first middle => exact hcalls middle back (List.cons.inj hsplit).2

/-- With an instance, exactly the runs go on that leave it alone once it is destroyed. -/
theorem runsOn_created {calls : List RsCall} :
    RunsOn decoder (.created ccsdsReedSolomon) calls ↔ AvoidedAfterDestroy calls := by
  induction calls with
  | nil => exact iff_of_true (runsOn_nil _) fun middle back hsplit => by simp at hsplit
  | cons call calls ih =>
      by_cases hdestroy : call = .destroyRs
      · subst hdestroy
        have hstep : RunsOn decoder (.created ccsdsReedSolomon) (.destroyRs :: calls) ↔
            RunsOn decoder .destroyed calls := runsOn_cons_of_exec ⟨_, rfl⟩
        rw [hstep, runsOn_destroyed]
        constructor
        · intro havoids middle back hsplit call hcall
          cases middle with
          | nil =>
              rw [← (List.cons.inj hsplit).2] at hcall
              exact havoids call hcall
          | cons first middle =>
              rw [(List.cons.inj hsplit).2] at havoids
              exact havoids call (List.mem_append_right _ (List.mem_cons_of_mem _ hcall))
        · exact fun havoids => havoids [] calls rfl
      · rw [runsOn_cons_of_exec (RsCall.exec_created hdestroy), ih,
          avoidedAfterDestroy_cons hdestroy]

/-- **The life of the instance.** A run whose calls initialise before they use never goes to
a missing or destroyed instance and destroys none twice, if and only if after an `initRs` and
a `destroyRs` behind it there is neither a second `destroyRs` nor a use. -/
theorem instance_alive_iff (decoder : RsDecoder) (calls : List RsCall)
    (h : InitialisedBeforeUse false calls) :
    RunsOn decoder .null calls ↔
      ∀ front middle back, calls = front ++ .initRs :: (middle ++ .destroyRs :: back) →
        ∀ call ∈ back, call.AvoidsInstance := by
  induction calls with
  | nil => exact iff_of_true (runsOn_nil _) fun front middle back hsplit => by simp at hsplit
  | cons call calls ih =>
      cases call with
      | initRs =>
          have hstep : RunsOn decoder .null (.initRs :: calls) ↔
              RunsOn decoder (.created ccsdsReedSolomon) calls := runsOn_cons_of_exec ⟨_, rfl⟩
          rw [hstep, runsOn_created]
          constructor
          · intro havoided front middle back hsplit
            cases front with
            | nil => exact havoided middle back (List.cons.inj hsplit).2
            | cons first front =>
                refine havoided (front ++ .initRs :: middle) back ?_
                rw [(List.cons.inj hsplit).2]
                simp
          · rintro hafter middle back rfl
            exact hafter [] middle back rfl
      | destroyRs =>
          have hstep : RunsOn decoder .null (.destroyRs :: calls) ↔ RunsOn decoder .null calls :=
            runsOn_cons_of_exec ⟨_, rfl⟩
          rw [hstep, ih h]
          constructor
          · intro hafter front middle back hsplit
            cases front with
            | nil => exact absurd (List.cons.inj hsplit).1 (by decide)
            | cons first front => exact hafter front middle back (List.cons.inj hsplit).2
          · rintro hafter front middle back rfl
            exact hafter (.destroyRs :: front) middle back rfl
      | rsEncode telemData rsData => exact absurd h.1 (by decide)
      | rsDecode rsData decodedData decodedDataLen => exact absurd h.1 (by decide)

end Runs

theorem instance_alive_iff_encode :
    RunsOn (fun _ _ => none) .null
      [.initRs, .rsEncode (some (Block.fill _ 0)) (some (Block.fill _ 0)), .destroyRs] :=
  (instance_alive_iff _
    [.initRs, .rsEncode (some (Block.fill _ 0)) (some (Block.fill _ 0)), .destroyRs]
    ⟨rfl, trivial⟩).mpr fun front middle back hsplit => by
      -- the only `destroyRs` is the last call
      rcases front with _ | ⟨first, _ | ⟨second, _ | ⟨third, front⟩⟩⟩ <;> simp at hsplit
      rcases middle with _ | ⟨encode, _ | ⟨destroy, middle⟩⟩ <;> simp at hsplit
      simp [hsplit]

/-- A second `FEC` object encodes after the first one is gone. -/
theorem instance_alive_fails :
    ¬ ∀ (decoder : RsDecoder) (calls : List RsCall),
      InitialisedBeforeUse false calls → RunsOn decoder .null calls := by
  intro h
  obtain ⟨history, final, hrun⟩ := h (fun _ _ => none)
    [.initRs, .destroyRs, .initRs,
      .rsEncode (some (Block.fill _ 0)) (some (Block.fill _ 0))] ⟨rfl, trivial⟩
  have herror : trace (RsCall.exec fun _ _ => none) .null
      [.initRs, .destroyRs, .initRs,
        .rsEncode (some (Block.fill _ 0)) (some (Block.fill _ 0))] =
      .error .invalidPointer := rfl
  rw [herror] at hrun
  contradiction

end ObcGsInterface
