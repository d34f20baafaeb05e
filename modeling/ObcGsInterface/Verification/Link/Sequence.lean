import ObcGsInterface.Verification.Link.Frames
import Mathlib.Data.List.Basic
import Mathlib.Logic.Function.Basic
import Mathlib.Logic.Relation

/-! # Sequence numbers of two endpoints

Two endpoints exchange I frames over channels that lose nothing and keep the order. The
counter behind N(R) goes back to 0 when its owner sends at 7 or more, whatever the
remainder, and it wraps at 256. -/

namespace ObcGsInterface

open CArray

/-! ## The system -/

inductive Party where
  | a
  | b
  deriving DecidableEq, Repr

def Party.other : Party → Party
  | .a => .b
  | .b => .a

theorem Party.other_ne (p : Party) : p.other ≠ p := by cases p <;> decide

/-- A frame that was sent, and how many frames its sender had received by then. -/
structure SentFrame where
  frame : UnstuffedAx25IFrame
  seen : ℕ

/-- An endpoint: its static variables, the frames it has sent so far and how many frames of
the other endpoint it has received. -/
structure Endpoint where
  link : LinkState
  sent : List SentFrame
  received : ℕ

/-- The frames on the way to `p` are those of the other endpoint from `(x p).received` on. -/
abbrev System := Party → Endpoint

/-- What an endpoint does next. -/
inductive Action where
  | send (p : Party)
  | refuse (p : Party)
  | recv (p : Party)

/-- One call at one endpoint. A call of `ax25SendIFrame` that fails sends nothing. -/
inductive SystemStep (x : System) : Action → System → Prop where
  | send (p : Party) (telemData : Option (List Byte)) (telemDataLen : Byte)
      (ax25Data : Option UnstuffedAx25IFrame) (frame : UnstuffedAx25IFrame) (link : LinkState)
      (run : ax25SendIFrame (x p).link telemData telemDataLen.toNat ax25Data =
        .ok ⟨.success, some frame, link⟩) :
      SystemStep x (.send p)
        (Function.update x p ⟨link, (x p).sent ++ [⟨frame, (x p).received⟩], (x p).received⟩)
  | refuse (p : Party) (telemData : Option (List Byte)) (telemDataLen : Byte)
      (ax25Data : Option UnstuffedAx25IFrame) (result : LinkResult (Option UnstuffedAx25IFrame))
      (run : ax25SendIFrame (x p).link telemData telemDataLen.toNat ax25Data = .ok result)
      (failed : result.err ≠ .success) :
      SystemStep x (.refuse p)
        (Function.update x p ⟨result.state, (x p).sent, (x p).received⟩)
  | recv (p : Party) (next : SentFrame) (command : Option UFrameCmd)
      (result : LinkResult (Option UFrameCmd))
      (first : (x p.other).sent[(x p).received]? = some next)
      (run : ax25Recv (x p).link (some next.frame) command = .ok result) :
      SystemStep x (.recv p)
        (Function.update x p ⟨result.state, (x p).sent, (x p).received + 1⟩)

/-- Both counters are 0 and frames go to one of the two stations. -/
structure LinkState.Synchronised (s : LinkState) : Prop where
  pktSentNum_eq : s.pktSentNum = 0
  pktReceiveNum_eq : s.pktReceiveNum = 0
  length_eq : s.currentLinkDestAddr.length = ax25DestAddrBytes
  dest : s.currentLinkDestAddr.data.cells = cubeSatDest ∨
    s.currentLinkDestAddr.data.cells = groundDest

/-- A system before the first I frame. -/
def System.Initial (x : System) : Prop :=
  ∀ p, (x p).link.Synchronised ∧ (x p).sent = [] ∧ (x p).received = 0

/-- The N(S) of frame `k` of an endpoint, which it has sent or will send next. -/
def Endpoint.sendNumberOf (e : Endpoint) (k : ℕ) : Byte :=
  match e.sent[k]? with
  | some sent => sendNumber sent.frame.control
  | none => e.link.clamped.pktSentNum

/-- Every frame that was sent says in N(R) which frame its sender expected next. -/
def Agrees (x : System) : Prop :=
  ∀ p, ∀ sent ∈ (x p).sent, receiveNumber sent.frame.control = (x p.other).sendNumberOf sent.seen

/-- The receive counter does not wrap, and it is reset at multiples of 7 only. -/
def Action.KeepsCount (x : System) : Action → Prop
  | .send p => (x p).link.pktReceiveNum.toNat < 7 ∨ 7 ∣ (x p).link.pktReceiveNum.toNat
  | .refuse _ => True
  | .recv p => (x p).link.pktReceiveNum ≠ 255

/-! ## The counters -/

theorem clampCounter_toNat (n : Byte) :
    (clampCounter n).toNat = if n.toNat ≥ 7 then 0 else n.toNat := by
  rw [clampCounter, maxContinuousPacketsAllowed]
  split_ifs <;> rfl

/-- What the code's counters say about the endpoint. -/
structure CountsOk (e : Endpoint) : Prop where
  sentNum_le : e.link.pktSentNum.toNat ≤ 7
  sentNum_eq : e.link.pktSentNum.toNat % 7 = e.sent.length % 7
  receiveNum_eq : e.link.pktReceiveNum.toNat % 7 = e.received % 7
  length_eq : e.link.currentLinkDestAddr.length = ax25DestAddrBytes
  dest : e.link.currentLinkDestAddr.data.cells = cubeSatDest ∨
    e.link.currentLinkDestAddr.data.cells = groundDest

theorem CountsOk.clamped_sentNum {e : Endpoint} (h : CountsOk e) :
    e.link.clamped.pktSentNum.toNat = e.sent.length % 7 := by
  have hle := h.sentNum_le
  have heq := h.sentNum_eq
  change (clampCounter e.link.pktSentNum).toNat = _
  rw [clampCounter_toNat]
  split_ifs <;> omega

/-- The counter that a frame carries is right exactly when its reset loses no remainder. -/
theorem CountsOk.clamped_receiveNum {e : Endpoint} (h : CountsOk e) :
    e.link.clamped.pktReceiveNum.toNat = e.received % 7 ↔
      e.link.pktReceiveNum.toNat < 7 ∨ 7 ∣ e.link.pktReceiveNum.toNat := by
  have heq := h.receiveNum_eq
  change (clampCounter e.link.pktReceiveNum).toNat = _ ↔ _
  rw [clampCounter_toNat]
  split_ifs <;> omega

/-- What is known of frame `k` of an endpoint. -/
structure FrameOk (k : ℕ) (sent : SentFrame) : Prop where
  delivered : ∀ (s : LinkState) (command : Option UFrameCmd),
    ax25Recv s (some sent.frame) command = .ok ⟨.success, command, s.received⟩
  send_eq : (sendNumber sent.frame.control).toNat = k % 7
  receive_eq : (receiveNumber sent.frame.control).toNat = sent.seen % 7

/-- The invariant of a run that keeps the counts. -/
structure SystemInv (x : System) : Prop where
  counts : ∀ p, CountsOk (x p)
  frames : ∀ (p : Party) (k : ℕ) (sent : SentFrame), (x p).sent[k]? = some sent → FrameOk k sent
  seen_le : ∀ (p : Party) (k : ℕ) (sent : SentFrame), (x p).sent[k]? = some sent →
    sent.seen ≤ (x p.other).sent.length
  received_le : ∀ p, (x p).received ≤ (x p.other).sent.length

/-- The frame that an endpoint sends, by its counters. -/
theorem sent_frame {e : Endpoint} (he : CountsOk e) {telemData : Option (List Byte)}
    {telemDataLen : Byte} {ax25Data : Option UnstuffedAx25IFrame} {frame : UnstuffedAx25IFrame}
    {link : LinkState}
    (h : ax25SendIFrame e.link telemData telemDataLen.toNat ax25Data =
      .ok ⟨.success, some frame, link⟩) :
    link = e.link.sent ∧
      (∀ (s : LinkState) (command : Option UFrameCmd),
        ax25Recv s (some frame) command = .ok ⟨.success, command, s.received⟩) ∧
      sendNumber frame.control = e.link.clamped.pktSentNum ∧
      receiveNumber frame.control = e.link.clamped.pktReceiveNum := by
  have hlen : telemDataLen.toNat ≤ ax25InfoBytes := Nat.le_of_lt_succ telemDataLen.isLt
  cases ax25SendIFrame_sent hlen h with
  | sent data frame data_eq link read length_eq cells_eq =>
      have hinfo : (infoField (data.take telemDataLen.toNat)).length = ax25InfoBytes :=
        length_infoField (Nat.le_trans (List.length_take_le _ _) hlen)
      have hsealed := sealed_iFrame length_eq cells_eq (Block.length_cells _) hinfo
      have hcontrol := (hsealed.fields (Block.length_cells _)).control_eq
      have hspec := e.link.iControl_spec
      refine ⟨rfl, fun s command => ?_, ?_, ?_⟩
      · obtain ⟨hhandled, hreceived⟩ := hsealed.iFrame_handled he.dest hinfo s command
        exact hhandled.trans hreceived
      · rw [hcontrol, hspec.send_eq]
      · rw [hcontrol, hspec.receive_eq]

/-! ## Steps -/

theorem System.Initial.inv {x : System} (h : x.Initial) : SystemInv x where
  counts p := by
    obtain ⟨hlink, hsent, hreceived⟩ := h p
    refine ⟨?_, ?_, ?_, hlink.length_eq, hlink.dest⟩
    · rw [hlink.pktSentNum_eq]
      decide
    · rw [hlink.pktSentNum_eq, hsent]
      rfl
    · rw [hlink.pktReceiveNum_eq, hreceived]
      rfl
  frames p k sent hget := by
    rw [(h p).2.1] at hget
    contradiction
  seen_le p k sent hget := by
    rw [(h p).2.1] at hget
    contradiction
  received_le p := by
    rw [(h p).2.2]
    exact Nat.zero_le _

/-- To keep the invariant when one endpoint changes, look at that endpoint. -/
theorem SystemInv.update {x : System} (hx : SystemInv x) {p : Party} {e : Endpoint}
    (hcounts : CountsOk e) (hframes : ∀ k sent, e.sent[k]? = some sent → FrameOk k sent)
    (hseen : ∀ (k : ℕ) (sent : SentFrame), e.sent[k]? = some sent →
      sent.seen ≤ (x p.other).sent.length)
    (hlength : (x p).sent.length ≤ e.sent.length)
    (hreceived : e.received ≤ (x p.other).sent.length) : SystemInv (Function.update x p e) := by
  have hother (q : Party) (hq : q ≠ p) : q.other = p := by
    cases q <;> cases p <;> simp_all [Party.other]
  have hsent (q : Party) : (x q).sent.length ≤ (Function.update x p e q).sent.length := by
    by_cases hq : q = p
    · subst hq
      rwa [Function.update_self]
    · rw [Function.update_of_ne hq]
  refine ⟨fun q => ?_, fun q k sent hget => ?_, fun q k sent hget => ?_, fun q => ?_⟩
  · by_cases hq : q = p
    · rw [hq, Function.update_self]
      exact hcounts
    · rw [Function.update_of_ne hq]
      exact hx.counts q
  · by_cases hq : q = p
    · rw [hq, Function.update_self] at hget
      exact hframes k sent hget
    · rw [Function.update_of_ne hq] at hget
      exact hx.frames q k sent hget
  · by_cases hq : q = p
    · subst hq
      rw [Function.update_self] at hget
      exact Nat.le_trans (hseen k sent hget) (hsent q.other)
    · rw [Function.update_of_ne hq] at hget
      exact Nat.le_trans (hx.seen_le q k sent hget) (hsent q.other)
  · by_cases hq : q = p
    · subst hq
      rw [Function.update_self]
      exact Nat.le_trans hreceived (hsent q.other)
    · rw [Function.update_of_ne hq]
      exact Nat.le_trans (hx.received_le q) (hsent q.other)

theorem CountsOk.send {e : Endpoint} (h : CountsOk e) (sent : SentFrame)
    (hguard : e.link.pktReceiveNum.toNat < 7 ∨ 7 ∣ e.link.pktReceiveNum.toNat) :
    CountsOk ⟨e.link.sent, e.sent ++ [sent], e.received⟩ := by
  have hsent := h.clamped_sentNum
  have hnext : e.link.sent.pktSentNum.toNat = e.sent.length % 7 + 1 := by
    change (e.link.clamped.pktSentNum + 1).toNat = _
    rw [BitVec.toNat_add, hsent, show (1 : Byte).toNat = 1 from rfl]
    exact Nat.mod_eq_of_lt (by omega)
  refine ⟨?_, ?_, ?_, h.length_eq, h.dest⟩
  · simp only [hnext]
    omega
  · simp only [hnext, List.length_append, List.length_singleton]
    omega
  · have hreceived := (CountsOk.clamped_receiveNum h).mpr hguard
    change e.link.clamped.pktReceiveNum.toNat % 7 = _
    rw [hreceived, Nat.mod_mod]

theorem CountsOk.receive {e : Endpoint} (h : CountsOk e) (hguard : e.link.pktReceiveNum ≠ 255) :
    CountsOk ⟨e.link.received, e.sent, e.received + 1⟩ := by
  refine ⟨h.sentNum_le, h.sentNum_eq, ?_, h.length_eq, h.dest⟩
  have hne : e.link.pktReceiveNum.toNat ≠ 255 := fun h => hguard (BitVec.eq_of_toNat_eq h)
  have hlt := e.link.pktReceiveNum.isLt
  have heq := h.receiveNum_eq
  have hnext : (e.link.pktReceiveNum + 1).toNat = e.link.pktReceiveNum.toNat + 1 := by
    rw [BitVec.toNat_add, show (1 : Byte).toNat = 1 from rfl]
    exact Nat.mod_eq_of_lt (by omega)
  change (e.link.pktReceiveNum + 1).toNat % 7 = (e.received + 1) % 7
  omega

theorem SystemInv.send {x : System} (hx : SystemInv x) {p : Party}
    {telemData : Option (List Byte)} {telemDataLen : Byte} {ax25Data : Option UnstuffedAx25IFrame}
    {frame : UnstuffedAx25IFrame} {link : LinkState}
    (h : ax25SendIFrame (x p).link telemData telemDataLen.toNat ax25Data =
      .ok ⟨.success, some frame, link⟩) (hguard : (Action.send p).KeepsCount x) :
    SystemInv (Function.update x p
      ⟨link, (x p).sent ++ [⟨frame, (x p).received⟩], (x p).received⟩) := by
  have hcounts := hx.counts p
  obtain ⟨rfl, hdelivered, hsend, hreceive⟩ := sent_frame hcounts h
  have hlast (k : ℕ) (sent : SentFrame)
      (hget : ((x p).sent ++ [⟨frame, (x p).received⟩])[k]? = some sent) :
      (x p).sent[k]? = some sent ∨ k = (x p).sent.length ∧ sent = ⟨frame, (x p).received⟩ := by
    rw [List.getElem?_append] at hget
    split_ifs at hget with hk
    · exact .inl hget
    · obtain ⟨hindex, hsent⟩ := List.getElem?_eq_some_iff.mp hget
      rw [List.length_singleton] at hindex
      rw [List.getElem_singleton] at hsent
      exact .inr ⟨by omega, hsent.symm⟩
  refine hx.update (hcounts.send _ hguard) (fun k sent hget => ?_) (fun k sent hget => ?_) ?_
    (hx.received_le p)
  · rcases hlast k sent hget with hold | ⟨rfl, rfl⟩
    · exact hx.frames p k sent hold
    · refine ⟨hdelivered, ?_, ?_⟩
      · rw [hsend, hcounts.clamped_sentNum]
      · rw [hreceive]
        exact (CountsOk.clamped_receiveNum hcounts).mpr hguard
  · rcases hlast k sent hget with hold | ⟨rfl, rfl⟩
    · exact hx.seen_le p k sent hold
    · exact hx.received_le p
  · rw [List.length_append]
    exact Nat.le_add_right _ _

/-- A step that keeps the counts keeps the invariant. -/
theorem SystemInv.step {x y : System} {action : Action} (hx : SystemInv x)
    (hstep : SystemStep x action y) (hguard : action.KeepsCount x) : SystemInv y := by
  cases hstep with
  | send p telemData telemDataLen ax25Data frame link run => exact hx.send run hguard
  | refuse p telemData telemDataLen ax25Data result run failed =>
      have hstate : result.state = (x p).link := by
        cases ax25SendIFrame_sent (Nat.le_of_lt_succ telemDataLen.isLt) run with
        | rejected missing => rfl
        | sent data frame => exact absurd rfl failed
      rw [hstate]
      exact hx.update (hx.counts p) (hx.frames p) (hx.seen_le p) (Nat.le_refl _) (hx.received_le p)
  | recv p next command result first run =>
      have hresult := (hx.frames p.other _ next first).delivered (x p).link command
      rw [run, Except.ok.injEq] at hresult
      rw [hresult]
      have hreceived : (x p).received < (x p.other).sent.length :=
        (List.getElem?_eq_some_iff.mp first).1
      exact hx.update ((hx.counts p).receive hguard) (hx.frames p) (hx.seen_le p) (Nat.le_refl _)
        hreceived

/-! ## Agreement -/

theorem SystemInv.sendNumberOf {x : System} (hx : SystemInv x) (p : Party) {k : ℕ}
    (hk : k ≤ (x p).sent.length) : ((x p).sendNumberOf k).toNat = k % 7 := by
  unfold Endpoint.sendNumberOf
  cases hget : (x p).sent[k]? with
  | none =>
      have hlength : k = (x p).sent.length := by
        have := List.getElem?_eq_none_iff.mp hget
        omega
      rw [hlength]
      exact (hx.counts p).clamped_sentNum
  | some sent => exact (hx.frames p k sent hget).send_eq

theorem SystemInv.agrees {x : System} (hx : SystemInv x) : Agrees x := by
  intro p sent hsent
  obtain ⟨k, hget⟩ := List.mem_iff_getElem?.mp hsent
  apply BitVec.eq_of_toNat_eq
  rw [(hx.frames p k sent hget).receive_eq, hx.sendNumberOf p.other (hx.seen_le p k sent hget)]

/-- A frame that is sent while the counter holds a remainder above 7 is wrong. -/
theorem SystemInv.keepsCount_of_agrees {x : System} (hx : SystemInv x) {p : Party}
    {telemData : Option (List Byte)} {telemDataLen : Byte} {ax25Data : Option UnstuffedAx25IFrame}
    {frame : UnstuffedAx25IFrame} {link : LinkState}
    (h : ax25SendIFrame (x p).link telemData telemDataLen.toNat ax25Data =
      .ok ⟨.success, some frame, link⟩)
    (hagrees : Agrees (Function.update x p
      ⟨link, (x p).sent ++ [⟨frame, (x p).received⟩], (x p).received⟩)) :
    (Action.send p).KeepsCount x := by
  have hcounts := hx.counts p
  obtain ⟨-, -, -, hreceive⟩ := sent_frame hcounts h
  have hnew := hagrees p ⟨frame, (x p).received⟩ (by
    rw [Function.update_self]
    exact List.mem_append_right _ (List.mem_singleton_self _))
  rw [Function.update_of_ne p.other_ne] at hnew
  apply (CountsOk.clamped_receiveNum hcounts).mp
  rw [← hx.sendNumberOf p.other (hx.received_le p), ← hnew, hreceive]

/-! ## Runs -/

/-- A step that keeps the counts. -/
def KeepingStep (x y : System) : Prop := ∃ action : Action, action.KeepsCount x ∧ SystemStep x action y

theorem inv_of_run {x y : System} (hx : x.Initial) (h : Relation.ReflTransGen KeepingStep x y) :
    SystemInv y := by
  induction h with
  | refl => exact hx.inv
  | tail _ hstep ih =>
      obtain ⟨action, hguard, hstep⟩ := hstep
      exact ih.step hstep hguard

/-- An endpoint can always send. -/
theorem CountsOk.exists_send {e : Endpoint} (he : CountsOk e) :
    ∃ frame, ax25SendIFrame e.link (some []) (0 : Byte).toNat (some ⟨Block.fill _ 0, 0⟩) =
      .ok ⟨.success, some frame, e.link.sent⟩ := by
  obtain ⟨frame, hrun, -, -⟩ := ax25SendIFrame_empty he.length_eq
  exact ⟨frame, hrun⟩

/-- From a start, `n` frames can go from one endpoint to the other while nothing comes back. -/
theorem exists_oneWay {x : System} (hx : x.Initial) {n : ℕ} (hn : n ≤ 255) :
    ∃ y, Relation.ReflTransGen KeepingStep x y ∧ (y .a).link.pktReceiveNum = 0 ∧
      (y .b).link.pktReceiveNum.toNat = n ∧ (y .b).received = n ∧ (y .a).sent.length = n := by
  induction n with
  | zero =>
      have ha := hx .a
      have hb := hx .b
      exact ⟨x, .refl, ha.1.pktReceiveNum_eq, by rw [hb.1.pktReceiveNum_eq]; rfl, hb.2.2,
        by rw [ha.2.1]; rfl⟩
  | succ n ih =>
      obtain ⟨y, hrun, hcountA, hcountB, hreceived, hsent⟩ := ih (by omega)
      have hy := inv_of_run hx hrun
      obtain ⟨frame, hframe⟩ := (hy.counts .a).exists_send
      have hsend := SystemStep.send Party.a _ _ _ frame _ hframe
      have hguardA : (Action.send .a).KeepsCount y := .inl (by rw [hcountA]; decide)
      set z := Function.update y .a
        ⟨(y .a).link.sent, (y .a).sent ++ [⟨frame, (y .a).received⟩], (y .a).received⟩ with hz
      have hza : z .a = ⟨(y .a).link.sent, (y .a).sent ++ [⟨frame, (y .a).received⟩],
          (y .a).received⟩ := Function.update_self ..
      have hzb : z .b = y .b := Function.update_of_ne (by decide) ..
      have hinv := hy.step hsend hguardA
      have hfirst : (z .a).sent[(z .b).received]? = some ⟨frame, (y .a).received⟩ := by
        rw [hza, hzb, hreceived, ← hsent]
        simp
      have hrecv := (hinv.frames .a _ _ hfirst).delivered (z .b).link none
      have hguardB : (Action.recv .b).KeepsCount z := by
        intro hfull
        rw [hzb] at hfull
        rw [hfull] at hcountB
        have : (255 : Byte).toNat = 255 := rfl
        omega
      refine ⟨_, (hrun.tail ⟨.send .a, hguardA, hsend⟩).tail
        ⟨.recv .b, hguardB, .recv .b _ none _ hfirst hrecv⟩, ?_, ?_, ?_, ?_⟩
      · rw [Function.update_of_ne (by decide), hza]
        change clampCounter (y .a).link.pktReceiveNum = 0
        rw [hcountA]
        rfl
      · rw [Function.update_self, hzb]
        change ((y .b).link.pktReceiveNum + 1).toNat = n + 1
        rw [BitVec.toNat_add, hcountB, show (1 : Byte).toNat = 1 from rfl]
        exact Nat.mod_eq_of_lt (by omega)
      · rw [Function.update_self, hzb, hreceived]
      · rw [Function.update_of_ne (by decide), hza, List.length_append, hsent]
        rfl

/-- **Sequence numbers agree** after every run whose steps keep the counts, and the next frame
keeps it so exactly when the sender's receive counter is below 7 or a multiple of 7. -/
theorem sequence_agreement {x y : System} (hx : x.Initial)
    (hrun : Relation.ReflTransGen KeepingStep x y) :
    Agrees y ∧ ∀ (p : Party) (z : System), SystemStep y (.send p) z →
      (Agrees z ↔ (Action.send p).KeepsCount y) := by
  have hinv := inv_of_run hx hrun
  refine ⟨hinv.agrees, fun p z hstep => ?_⟩
  constructor
  · intro hagrees
    cases hstep with
    | send p telemData telemDataLen ax25Data frame link run =>
        exact hinv.keepsCount_of_agrees run hagrees
  · intro hguard
    exact (hinv.step hstep hguard).agrees

/-- Two endpoints of which each sends to the satellite. -/
def startSystem : System := fun _ => ⟨⟨0, 0, cubeSatLink⟩, [], 0⟩

theorem startSystem_initial : startSystem.Initial := fun _ => ⟨⟨rfl, rfl, rfl, .inl rfl⟩, rfl, rfl⟩

theorem sequence_agreement_oneWay :
    ∃ y, (y .b).received = 8 ∧ Agrees y ∧ ∀ (p : Party) (z : System), SystemStep y (.send p) z →
      (Agrees z ↔ (Action.send p).KeepsCount y) := by
  obtain ⟨y, hrun, -, -, hreceived, -⟩ :=
    exists_oneWay startSystem_initial (show 8 ≤ 255 by decide)
  exact ⟨y, hreceived, sequence_agreement startSystem_initial hrun⟩

/-- After eight frames without an answer, the answer asks for number 0, though number 1 comes
next. -/
theorem sequence_agreement_fails :
    ¬ ∀ x y : System, x.Initial →
      Relation.ReflTransGen (fun x y => ∃ action, SystemStep x action y) x y → Agrees y := by
  intro h
  obtain ⟨y, hrun, -, hcount, -, -⟩ := exists_oneWay startSystem_initial (show 8 ≤ 255 by decide)
  have hy := inv_of_run startSystem_initial hrun
  obtain ⟨frame, hframe⟩ := (hy.counts .b).exists_send
  have hsteps : Relation.ReflTransGen (fun x y => ∃ action, SystemStep x action y) startSystem y :=
    Relation.ReflTransGen.mono (fun _ _ ⟨action, _, hstep⟩ => ⟨action, hstep⟩) _ _ hrun
  have hagrees := h startSystem _ startSystem_initial (hsteps.tail ⟨.send .b, .send .b _ _ _ frame _ hframe⟩)
  have hguard := hy.keepsCount_of_agrees hframe hagrees
  simp only [Action.KeepsCount, hcount] at hguard
  omega

end ObcGsInterface
