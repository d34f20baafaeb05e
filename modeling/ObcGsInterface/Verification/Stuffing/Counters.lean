import ObcGsInterface.Verification.Stuffing.RoundTrip

/-! # The counters of the stuffing loop

`ax25Stuff` takes any 16-bit length, but its loop compares a 16-bit offset in bits with a bound
of up to 19 bits, and the offset of the output runs ahead of that of the input. What follows
says for which inputs neither of them wraps around. -/

namespace ObcGsInterface

open CArray Loop BitStream BitStuffing Transducer

/-- The length of the packet: the bytes of the stuffed content between two flags. -/
def stuffedLength (rawData : List Byte) (rawDataLen : ℕ) : ℕ :=
  byteCount (stuff 5 (contentBits rawData rawDataLen)) + 2

/-- A packet is longer than its data by a fifth, and by the two flags. -/
theorem stuffedLength_le {rawData : List Byte} {rawDataLen : ℕ}
    (hlen : rawDataLen ≤ rawData.length) :
    5 * stuffedLength rawData rawDataLen ≤ 6 * rawDataLen + 14 := by
  have hle : 5 * (stuff 5 (contentBits rawData rawDataLen)).length ≤
      6 * (contentBits rawData rawDataLen).length := length_stuff_le _
  rw [length_contentBits hlen] at hle
  unfold stuffedLength byteCount
  omega

/-- The loop ends, none of its rounds makes an offset smaller, and the reported length is that
of the packet. -/
structure StuffsExactly {n : ℕ} (rawData : List Byte) (rawDataLen : ℕ) (data : Block Byte n) :
    Prop where
  terminates : ∃ rounds s,
    whileLoop (stuffGuard rawDataLen) (stuffBody rawData) rounds ⟨8, 8, 0, data⟩ = .ok s
  never_wraps : ∀ s s' : StuffState n,
    Relation.ReflTransGen (Round (stuffGuard rawDataLen) (stuffBody rawData)) ⟨8, 8, 0, data⟩ s →
    Round (stuffGuard rawDataLen) (stuffBody rawData) s s' →
    s.rawOffset < s'.rawOffset ∧ s.stuffedOffset < s'.stuffedOffset
  reported_length : ∃ result, ax25Stuff rawData rawDataLen data = .ok result ∧
    result.err = .success ∧ result.stuffedDataLen = stuffedLength rawData rawDataLen

/-! ## Lengths from 8193 on -/

/-- From 8193 bytes on the bound is beyond every value of the offset. -/
theorem stuffGuard_long {n rawDataLen : ℕ} {s : StuffState n} (hlong : 8192 < rawDataLen)
    (hoffset : s.rawOffset < 2 ^ 16) : stuffGuard rawDataLen s = .ok true := by
  have hlt : (s.rawOffset : ℤ) < ((rawDataLen : ℤ) - 1) * 8 := by omega
  rw [stuffGuard, decide_eq_true hlt]

/-- The ranges of the counters between two rounds. -/
structure CountersInRange {n : ℕ} (s : StuffState n) : Prop where
  rawOffset_lt : s.rawOffset < 2 ^ 16
  stuffedOffset_lt : s.stuffedOffset < 2 ^ 16
  oneCount_lt : s.oneCount < 5

/-- No offset in its range is outside buffers of more than 8192 bytes. -/
theorem stuffBody_inRange {n : ℕ} {rawData : List Byte} {s : StuffState n}
    (hraw : 8192 < rawData.length) (hn : 8192 < n) (hs : CountersInRange s) :
    ∃ s', stuffBody rawData s = .ok s' ∧ CountersInRange s' := by
  obtain ⟨hrawOffset, hstuffedOffset, hcount⟩ := hs
  have hstep := length_stuffStep_le 5 s.oneCount (bitAt rawData s.rawOffset)
  have hnext : (stuffStep 5 s.oneCount (bitAt rawData s.rawOffset)).1 < 5 :=
    final_stuffStep_lt hcount [bitAt rawData s.rawOffset]
  exact ⟨_, stuffBody_wraps (by omega) hcount (by omega), Nat.mod_lt _ (by decide),
    Nat.mod_lt _ (by decide), hnext⟩

/-- The loop runs round and round over the first 8192 bytes, and never returns. -/
theorem stuffLoop_forever {n : ℕ} {rawData : List Byte} {rawDataLen : ℕ} (data : Block Byte n)
    (hlong : 8192 < rawDataLen) (hlen : rawDataLen ≤ rawData.length)
    (hroom : stuffedLength rawData rawDataLen ≤ n) (rounds : ℕ) :
    whileLoop (stuffGuard rawDataLen) (stuffBody rawData) rounds ⟨8, 8, 0, data⟩ =
      .error .nonTermination := by
  have hlength := length_contentBits hlen
  have hgrows : (contentBits rawData rawDataLen).length ≤
      (stuff 5 (contentBits rawData rawDataLen)).length := length_le_length_output _
  have hn : 8192 < n := by
    unfold stuffedLength byteCount at hroom
    omega
  have hstart : CountersInRange (⟨8, 8, 0, data⟩ : StuffState n) :=
    ⟨(by decide : 8 < 2 ^ 16), (by decide : 8 < 2 ^ 16), (by decide : 0 < 5)⟩
  exact whileLoop_forever (fun s hs => stuffGuard_long hlong hs.rawOffset_lt)
    (fun s hs => stuffBody_inRange (by omega) hn hs) rounds hstart

/-! ## Lengths up to 8192 -/

/-- The counters of the loop after `k` bits of the content, where only the offset of the output
can have wrapped around. -/
structure CounterStage {n : ℕ} (content : List Bool) (k : ℕ) (s : StuffState n) : Prop where
  rawOffset_eq : s.rawOffset = 8 + k
  oneCount_eq : s.oneCount = final (stuffStep 5) 0 (content.take k)
  stuffedOffset_eq : s.stuffedOffset = (8 + (stuff 5 (content.take k)).length) % 2 ^ 16

/-- The offset of the output before the `k`-th bit, and after it. -/
theorem length_stuff_contentBits_succ {rawData : List Byte} {rawDataLen k : ℕ}
    (hlen : rawDataLen ≤ rawData.length) (hk : k < (contentBits rawData rawDataLen).length) :
    (stuff 5 ((contentBits rawData rawDataLen).take (k + 1))).length =
      (stuff 5 ((contentBits rawData rawDataLen).take k)).length +
        (stuffStep 5 (final (stuffStep 5) 0 ((contentBits rawData rawDataLen).take k))
          (bitAt rawData (8 + k))).2.length := by
  rw [contentBits_take_succ hlen hk, stuff_append_singleton, List.length_append]

theorem stuffBody_counters {n : ℕ} {rawData : List Byte} {rawDataLen k : ℕ} {s : StuffState n}
    (hlen : rawDataLen ≤ rawData.length) (hshort : rawDataLen ≤ 8192)
    (hroom : stuffedLength rawData rawDataLen ≤ n)
    (hk : k < (contentBits rawData rawDataLen).length)
    (hs : CounterStage (contentBits rawData rawDataLen) k s) :
    ∃ s', stuffBody rawData s = .ok s' ∧
      CounterStage (contentBits rawData rawDataLen) (k + 1) s' := by
  have hlength := length_contentBits hlen
  have hraw := hs.rawOffset_eq
  have hone := hs.oneCount_eq
  have hoffset := hs.stuffedOffset_eq
  have hgrown := length_stuff_contentBits_succ hlen hk
  rw [← hone, ← hraw] at hgrown
  have hprefix := length_stuff_take_le (contentBits rawData rawDataLen) (k + 1)
  have hmod := Nat.mod_le (8 + (stuff 5 ((contentBits rawData rawDataLen).take k)).length) (2 ^ 16)
  have hcount : s.oneCount < 5 := by
    rw [hone]
    exact final_stuffStep_lt (by decide) _
  have hfits : s.stuffedOffset +
      (stuffStep 5 s.oneCount (bitAt rawData s.rawOffset)).2.length ≤ 8 * n := by
    unfold stuffedLength byteCount at hroom
    omega
  refine ⟨_, stuffBody_wraps (by omega) hcount hfits, ?_⟩
  exact
    { rawOffset_eq := by
        simp only [hraw]
        omega
      oneCount_eq := by
        rw [contentBits_take_succ hlen hk, final_append, ← hone, ← hraw]
        rfl
      stuffedOffset_eq := by
        simp only [hgrown, hoffset, Nat.mod_add_mod, Nat.add_assoc] }

theorem counterStage_start {n : ℕ} (content : List Bool) (data : Block Byte n) :
    CounterStage content 0 (⟨8, 8, 0, data⟩ : StuffState n) := ⟨rfl, rfl, rfl⟩

/-- Up to 8192 bytes the loop ends, with an offset that may have wrapped around. -/
theorem stuffLoop_counters {n : ℕ} {rawData : List Byte} {rawDataLen : ℕ} (data : Block Byte n)
    (hlen : rawDataLen ≤ rawData.length) (hshort : rawDataLen ≤ 8192)
    (hroom : stuffedLength rawData rawDataLen ≤ n) :
    ∃ s, whileLoop (stuffGuard rawDataLen) (stuffBody rawData) (2 ^ 16) ⟨8, 8, 0, data⟩ = .ok s ∧
      CounterStage (contentBits rawData rawDataLen) (contentBits rawData rawDataLen).length s := by
  have hlength := length_contentBits hlen
  exact whileLoop_stages (fun k s hk hs => stuffGuard_eq hlen hs.rawOffset_eq hk)
    (fun k s hk hs => stuffBody_counters hlen hshort hroom hk hs) (Nat.zero_le _)
    (by omega) (counterStage_start _ data)

/-- What is reported for up to 8192 bytes is the length for the offset modulo `2 ^ 16`. -/
theorem ax25Stuff_wraps {n : ℕ} {rawData : List Byte} {rawDataLen : ℕ} (data : Block Byte n)
    (hlen : rawDataLen ≤ rawData.length) (hshort : rawDataLen ≤ 8192)
    (hroom : stuffedLength rawData rawDataLen ≤ n) :
    ∃ result, ax25Stuff rawData rawDataLen data = .ok result ∧ result.err = .success ∧
      result.stuffedDataLen =
        ((8 + (stuff 5 (contentBits rawData rawDataLen)).length) % 2 ^ 16 + 7) / 8 + 1 := by
  obtain ⟨s, hs, hend⟩ := stuffLoop_counters data hlen hshort hroom
  have hoffset := hend.stuffedOffset_eq
  rw [List.take_length] at hoffset
  have hmod := Nat.mod_le (8 + (stuff 5 (contentBits rawData rawDataLen)).length) (2 ^ 16)
  unfold stuffedLength byteCount at hroom
  have hlast : (s.stuffedOffset + 7) / 8 + 1 - 1 < n := by omega
  rw [ax25Stuff, hs, ok_bind]
  simp only [Block.store_of_lt _ _ (show 0 < n by omega), Block.store_of_lt _ _ hlast, ok_bind,
    pure_eq_ok]
  exact ⟨_, rfl, rfl, by simp only [hoffset]⟩

/-- As long as the whole packet has offsets of 16 bits, every round makes both offsets larger. -/
theorem stuffLoop_never_wraps {n : ℕ} {rawData : List Byte} {rawDataLen : ℕ} {data : Block Byte n}
    (hlen : rawDataLen ≤ rawData.length) (hshort : rawDataLen ≤ 8192)
    (hroom : stuffedLength rawData rawDataLen ≤ n)
    (hstuffed16 : 8 + (stuff 5 (contentBits rawData rawDataLen)).length < 2 ^ 16)
    {s s' : StuffState n}
    (hreach : Relation.ReflTransGen (Round (stuffGuard rawDataLen) (stuffBody rawData))
      ⟨8, 8, 0, data⟩ s)
    (hround : Round (stuffGuard rawDataLen) (stuffBody rawData) s s') :
    s.rawOffset < s'.rawOffset ∧ s.stuffedOffset < s'.stuffedOffset := by
  have hguard (k : ℕ) (s : StuffState n) (hk : k ≤ (contentBits rawData rawDataLen).length)
      (hs : CounterStage (contentBits rawData rawDataLen) k s) :
      stuffGuard rawDataLen s = .ok (decide (k < (contentBits rawData rawDataLen).length)) :=
    stuffGuard_eq hlen hs.rawOffset_eq hk
  rcases stage_of_reaches hguard
    (fun k s hk hs => stuffBody_counters hlen hshort hroom hk hs) (Nat.zero_le _)
    (counterStage_start _ data) hreach with ⟨k, hk, hs⟩
  have hlt : k < (contentBits rawData rawDataLen).length := by
    simpa [hround.1] using hguard k s hk hs
  obtain ⟨t, hrun, ht⟩ := stuffBody_counters hlen hshort hroom hlt hs
  obtain rfl : s' = t := by simpa [hround.2] using hrun
  have hgrown := length_stuff_contentBits_succ hlen hlt
  have hstep := length_stuffStep_pos 5
    (final (stuffStep 5) 0 ((contentBits rawData rawDataLen).take k)) (bitAt rawData (8 + k))
  have hprefix := length_stuff_take_le (contentBits rawData rawDataLen) (k + 1)
  rw [hs.rawOffset_eq, ht.rawOffset_eq, hs.stuffedOffset_eq, ht.stuffedOffset_eq,
    Nat.mod_eq_of_lt (by omega), Nat.mod_eq_of_lt (by omega)]
  omega

/-! ## Exact stuffing -/

/-- **Counters.** In buffers of the lengths the call is about, `ax25Stuff` stuffs exactly when
the bits of the data without its last byte, and the zeros to be inserted, one for every five
ones of a run, are fewer than `2 ^ 16`. -/
theorem stuffsExactly_iff {n : ℕ} {rawData : List Byte} {rawDataLen : ℕ} (data : Block Byte n)
    (hlen : rawDataLen ≤ rawData.length) (hroom : stuffedLength rawData rawDataLen ≤ n) :
    StuffsExactly rawData rawDataLen data ↔
      8 * (rawDataLen - 1) + insertions 5 (contentBits rawData rawDataLen) < 2 ^ 16 := by
  have hlength := length_contentBits hlen
  have hstuffed := length_stuff (by decide : 0 < 5) (contentBits rawData rawDataLen)
  have hle : 5 * (stuff 5 (contentBits rawData rawDataLen)).length ≤
      6 * (contentBits rawData rawDataLen).length := length_stuff_le _
  constructor
  · intro h
    rcases Nat.lt_or_ge 8192 rawDataLen with hlong | hshort
    · rcases h.terminates with ⟨rounds, s, hs⟩
      rw [stuffLoop_forever data hlong hlen hroom rounds] at hs
      contradiction
    · rcases h.reported_length with ⟨result, hrun, -, hreported⟩
      obtain ⟨result', hrun', -, hwrapped⟩ := ax25Stuff_wraps data hlen hshort hroom
      rw [hrun, Except.ok.injEq] at hrun'
      subst hrun'
      rw [hreported] at hwrapped
      unfold stuffedLength byteCount at hwrapped
      omega
  · intro h
    have hshort : rawDataLen ≤ 8192 := by omega
    have hstuffed16 : 8 + (stuff 5 (contentBits rawData rawDataLen)).length < 2 ^ 16 := by omega
    obtain ⟨s, hs, -⟩ := stuffLoop_counters data hlen hshort hroom
    obtain ⟨result, hrun, herr, hreported⟩ := ax25Stuff_wraps data hlen hshort hroom
    rw [Nat.mod_eq_of_lt hstuffed16] at hreported
    refine ⟨⟨_, s, hs⟩, ?_, ⟨result, hrun, herr, ?_⟩⟩
    · intro s s' hreach hround
      exact stuffLoop_never_wraps hlen hshort hroom hstuffed16 hreach hround
    · unfold stuffedLength byteCount
      omega

theorem stuffsExactly_iff_ones :
    StuffsExactly (List.replicate 8192 0xFF) 8192 (Block.fill 10000 0) ↔
      8 * (8192 - 1) + insertions 5 (contentBits (List.replicate 8192 0xFF) 8192) < 2 ^ 16 := by
  have hlen : 8192 ≤ (List.replicate 8192 (0xFF : Byte)).length := by rw [List.length_replicate]
  have hbound := stuffedLength_le hlen
  exact stuffsExactly_iff (Block.fill 10000 0) hlen (by omega)

/-- For 8193 bytes the loop never returns. -/
theorem stuffsExactly_fails :
    ¬ ∀ (rawData : List Byte) (rawDataLen n : ℕ) (data : Block Byte n), rawDataLen < 2 ^ 16 →
      rawDataLen ≤ rawData.length → stuffedLength rawData rawDataLen ≤ n →
      StuffsExactly rawData rawDataLen data := by
  intro h
  have hlen : 8193 ≤ (List.replicate 8193 (0 : Byte)).length := by rw [List.length_replicate]
  have hbound := stuffedLength_le hlen
  have hexact := h _ 8193 10000 (Block.fill 10000 0) (by decide) hlen (by omega)
  rcases hexact.terminates with ⟨rounds, s, hs⟩
  rw [stuffLoop_forever _ (by decide) hlen (by omega)] at hs
  cases hs

end ObcGsInterface
