import ObcGsInterface.Verification.Pipeline.Unstuff

/-! # Stuffing on the ground station

`AX25.stuff` takes every zero byte at the end of the stuffed data away, and `AX25.unstuff`
gives at most one of them back. Whether the frame is whole again depends on how many zero
bits its content ends in and on where the byte boundaries of the stuffed data lie. -/

namespace ObcGsInterface

open BitStream BitStuffing

/-- `pyStuffing` inserts a zero behind every run of five ones. -/
def InsertsStuffedBits (startStuffing : List Bool → List Bool) : Prop :=
  ∀ bs, startStuffing bs = BitStuffing.stuff 5 bs

/-! ## Zero bytes at the end -/

theorem last_eq_zero_iff {core : List Bool} (hcore : core.getLast? ≠ some false)
    {data : List Byte} {byte : Byte} {n : ℕ}
    (h : bits (data ++ [byte]) = core ++ List.replicate n false) : byte = 0 ↔ 8 ≤ n := by
  rw [bits_append, bits_cons, bits_nil, List.append_nil] at h
  constructor
  · rintro rfl
    by_contra hn
    have hzero : byteBits 0 = List.replicate (7 - n + 1) false ++ List.replicate n false := by
      rw [← List.replicate_add, show 7 - n + 1 + n = 8 by omega]
      rfl
    rw [hzero, ← List.append_assoc] at h
    apply hcore
    rw [← List.append_cancel_right h, List.replicate_succ', ← List.append_assoc,
      List.getLast?_concat]
  · intro hn
    rcases Nat.exists_eq_add_of_le' hn with ⟨m, rfl⟩
    rw [List.replicate_add, ← List.append_assoc] at h
    exact byteBits_injective (List.append_inj' h (by simp)).2

/-- Taking the zero bytes away leaves less than a byte of zero bits behind the last one bit. -/
theorem bits_rstrip {core : List Bool} (hcore : core.getLast? ≠ some false) (data : List Byte)
    (n : ℕ) (h : bits data = core ++ List.replicate n false) :
    bits (rstrip data) = core ++ List.replicate (n % 8) false := by
  induction data using List.reverseRecOn generalizing n with
  | nil =>
      rcases List.append_eq_nil_iff.mp h.symm with ⟨rfl, hzeros⟩
      obtain rfl : n = 0 := by simpa using hzeros
      rfl
  | append_singleton data byte ih =>
      have hlast := last_eq_zero_iff hcore h
      by_cases hn : 8 ≤ n
      · rcases hlast.mpr hn with rfl
        rcases Nat.exists_eq_add_of_le' hn with ⟨m, rfl⟩
        rw [bits_append, List.replicate_add, ← List.append_assoc] at h
        rw [rstrip, List.rdropWhile_concat_pos _ _ _ (by simp), Nat.add_mod_right]
        exact ih m (List.append_inj' h rfl).1
      · have hne : byte ≠ 0 := mt hlast.mp hn
        rw [rstrip, List.rdropWhile_concat_neg _ _ _ (by simpa using hne), h,
          Nat.mod_eq_of_lt (Nat.not_le.mp hn)]

/-! ## The round trip -/

/-- What comes back are the content's bits up to the last one, and zeros: behind the last one
bit, `AX25.stuff` leaves as many as fill its byte. -/
theorem unstuff_stuff {startStuffing startUnstuffing : List Bool → List Bool}
    (hstuff : InsertsStuffedBits startStuffing) (hunstuff : DropsStuffedBits startUnstuffing)
    {content : List Byte} {front : List Bool} (hfront : front.getLast? ≠ some false) {n : ℕ}
    (hbits : bits content = front ++ List.replicate n false) :
    ∃ inserted ≤ 1, trailingZeros (stuff 5 (bits content)) = inserted + n ∧
      Ax25.unstuff startUnstuffing
          (Ax25.stuff startStuffing (ax25Flag :: (content ++ [ax25Flag]))) =
        .ok (ax25Flag :: (trimmed (intListToBytes (front ++ List.replicate
          ((inserted + n + padding (stuff 5 (bits content))) % 8 - inserted) false)) ++
          [ax25Flag])) := by
  obtain ⟨core, inserted, hcore, hle, hstuffed, hdestuff⟩ :=
    stuff_trailingZeros (show 0 < 5 by decide) hfront n
  rw [← hbits] at hstuffed
  refine ⟨inserted, hle, by rw [hstuffed, trailingZeros_append hcore], ?_⟩
  have hinner : (ax25Flag :: (content ++ [ax25Flag])).dropLast.drop 1 = content := by
    rw [← List.cons_append, List.dropLast_concat]
    rfl
  -- A whole byte of zeros more or less is all the same to `rstrip`.
  have hpad : (inserted + n + (8 - (stuff 5 (bits content)).length % 8)) % 8 =
      (inserted + n + padding (stuff 5 (bits content))) % 8 := by
    unfold padding byteCount
    omega
  have hpacked : bits (intListToBytes (stuff 5 (bits content))) = core ++
      List.replicate (inserted + n + (8 - (stuff 5 (bits content)).length % 8)) false := by
    rw [bits_intListToBytes]
    conv_lhs => rw [hstuffed]
    rw [List.append_assoc, ← List.replicate_add, ← hstuffed]
  rw [Ax25.stuff, hinner, hstuff, bytesToIntList, unstuff_flags hunstuff,
    bits_rstrip hcore _ _ hpacked, hpad, hdestuff]

/-- Bytes made of the content's bits with another number of zeros behind the last one. -/
theorem intListToBytes_zeros {content : List Byte} {front : List Bool} {n k : ℕ}
    (hbits : bits content = front ++ List.replicate n false)
    (hle : content.length ≤ (front.length + k) / 8 + 1) :
    intListToBytes (front ++ List.replicate k false) =
      content ++ List.replicate ((front.length + k) / 8 + 1 - content.length) 0 := by
  apply bits_injective
  have hlength : 8 * content.length = front.length + n := by
    rw [← length_bits, hbits]
    simp
  rw [bits_intListToBytes, bits_append, hbits, bits_replicate_zero, List.append_assoc,
    List.append_assoc, ← List.replicate_add, ← List.replicate_add, List.length_append,
    List.length_replicate]
  congr 2
  omega

/-- `AX25.unstuff` recognises a zero byte behind the content of a frame, and leaves the content
of an I frame alone. -/
theorem trimmed_eq_iff {content : List Byte} (h : content.length = 273 ∨ content.length = 17)
    {front : List Bool} {n k : ℕ} (hbits : bits content = front ++ List.replicate n false)
    (hk : k < 8) :
    trimmed (intListToBytes (front ++ List.replicate k false)) = content ↔
      n ≤ k ∨ n ≤ 8 + k ∧ (content.length = 273 ∨ content.getLast? ≠ some 0) := by
  have hencoded : rsEncodedDataSize = 255 := rfl
  have hnonInfo : ax25NonInfoBytes = 18 := rfl
  have hcontent : 8 * content.length = front.length + n := by
    rw [← length_bits, hbits]
    simp
  have hdata := @intListToBytes_zeros content front n k hbits
  have hlength := length_intListToBytes (front ++ List.replicate k false)
  rw [List.length_append, List.length_replicate] at hlength
  generalize intListToBytes (front ++ List.replicate k false) = data at hdata hlength
  rcases Nat.lt_trichotomy content.length ((front.length + k) / 8 + 1) with hlt | heq | hgt
  · obtain rfl : data = content ++ [0] := by
      rw [hdata (by omega), show (front.length + k) / 8 + 1 - content.length = 1 by omega]
      rfl
    rw [trimmed, List.getLast?_concat, if_pos ⟨rfl, by omega⟩, List.dropLast_concat]
    exact ⟨fun _ => .inl (by omega), fun _ => rfl⟩
  · obtain rfl : data = content := by
      rw [hdata (by omega), heq, Nat.sub_self, List.replicate_zero, List.append_nil]
    by_cases hlast : data.getLast? = some 0
    · rcases h with h | h
      · rw [trimmed, if_neg (by omega)]
        exact ⟨fun _ => .inr ⟨by omega, .inl h⟩, fun _ => rfl⟩
      · -- The last byte of a U frame is taken for padding.
        rw [trimmed, if_pos ⟨hlast, by omega⟩]
        constructor
        · intro hcut
          have := congrArg List.length hcut
          rw [List.length_dropLast] at this
          omega
        · rintro (hle | ⟨-, hlong | hne⟩)
          · omega
          · omega
          · exact absurd hlast hne
    · rw [trimmed, if_neg (fun hcut => hlast hcut.1)]
      exact ⟨fun _ => .inr ⟨by omega, .inr hlast⟩, fun _ => rfl⟩
  · have hshort : (trimmed data).length ≤ data.length := by
      unfold trimmed
      split_ifs <;> simp
    constructor
    · intro heq
      rw [heq] at hshort
      omega
    · omega

/-- The zeros that an I frame ends in come back: at most eight of its bits, or less than two
bytes of the stuffed data, are zeros at the end. -/
def RegainsZeros (content : List Bool) : Prop :=
  trailingZeros content ≤ 8 ∨
    trailingZeros (stuff 5 content) + padding (stuff 5 content) < 16

instance : DecidablePred RegainsZeros := fun _ => inferInstanceAs (Decidable (_ ∨ _))

/-- The round trip of the content between two flags. -/
theorem unstuff_stuff_iff {startStuffing startUnstuffing : List Bool → List Bool}
    (hstuff : InsertsStuffedBits startStuffing) (hunstuff : DropsStuffedBits startUnstuffing)
    {content : List Byte} (h : content.length = 273 ∨ content.length = 17) :
    Ax25.unstuff startUnstuffing
        (Ax25.stuff startStuffing (ax25Flag :: (content ++ [ax25Flag]))) =
      .ok (ax25Flag :: (content ++ [ax25Flag])) ↔
    content.length = 17 ∧ content.getLast? ≠ some 0 ∨
      content.length = 273 ∧ RegainsZeros (bits content) := by
  rcases exists_trailingZeros (bits content) with ⟨front, hfront, hbits⟩
  set n := trailingZeros (bits content) with hn
  have hlength : 8 * content.length = front.length + n := by
    rw [← length_bits, hbits]
    simp
  have hlast : content.getLast? = some 0 ↔ 8 ≤ n := by
    rcases List.eq_nil_or_concat' content with rfl | ⟨data, byte, rfl⟩
    · simp at h
    · rw [List.getLast?_concat, Option.some.injEq, last_eq_zero_iff hfront hbits]
  rcases unstuff_stuff hstuff hunstuff hfront hbits with ⟨inserted, hle, hzeros, hrun⟩
  have hpadding := padding_lt (stuff 5 (bits content))
  have hregains : RegainsZeros (bits content) ↔ n ≤ 8 ∨
      inserted + n + padding (stuff 5 (bits content)) < 16 := by
    rw [RegainsZeros, hzeros]
  have hk : (inserted + n + padding (stuff 5 (bits content))) % 8 - inserted < 8 := by omega
  have htrimmed := trimmed_eq_iff h hbits hk
  simp only [ne_eq, hlast] at htrimmed ⊢
  rw [hrun, Except.ok.injEq, List.cons.injEq, and_iff_right rfl, List.append_cancel_right_eq,
    htrimmed, hregains]
  omega

/-- **The round trip on the ground station.** A U frame comes back exactly if its last byte
before the closing flag is not zero, an I frame exactly if its zeros do. -/
theorem stuff_roundTrip {startStuffing startUnstuffing : List Bool → List Bool}
    (hstuff : InsertsStuffedBits startStuffing) (hunstuff : DropsStuffedBits startUnstuffing)
    {frame : List Byte} (hlength : frame.length = 275 ∨ frame.length = 19)
    (hfirst : frame.head? = some ax25Flag) (hlast : frame.getLast? = some ax25Flag) :
    Ax25.unstuff startUnstuffing (Ax25.stuff startStuffing frame) = .ok frame ↔
      frame.length = 19 ∧ frame[17]? ≠ some 0 ∨
        frame.length = 275 ∧ RegainsZeros (contentBits frame frame.length) := by
  rcases exists_content hfirst hlast (by omega) with ⟨content, rfl⟩
  have hframe : (ax25Flag :: (content ++ [ax25Flag])).length = content.length + 2 := by simp
  rw [hframe] at hlength ⊢
  have hcontent : content.length = 273 ∨ content.length = 17 := by omega
  have hbits : contentBits (ax25Flag :: (content ++ [ax25Flag])) (content.length + 2) =
      bits content := contentBits_flags content [] ax25Flag ax25Flag
  have hend : content.length = 17 →
      (ax25Flag :: (content ++ [ax25Flag]))[17]? = content.getLast? := by
    intro h
    rw [← h, getElem?_length_content (List.ne_nil_of_length_eq_add_one h)]
  rw [unstuff_stuff_iff hstuff hunstuff hcontent, hbits]
  constructor
  · rintro (⟨h, hne⟩ | ⟨h, hzeros⟩)
    · exact .inl ⟨by omega, by rwa [hend h]⟩
    · exact .inr ⟨by omega, hzeros⟩
  · rintro (⟨h, hne⟩ | ⟨h, hzeros⟩)
    · rw [hend (by omega)] at hne
      exact .inl ⟨by omega, hne⟩
    · exact .inr ⟨by omega, hzeros⟩

/-- The 19 bytes of a U frame without a zero byte. -/
theorem stuff_roundTrip_ones :
    Ax25.unstuff (destuff 5)
        (Ax25.stuff (stuff 5) (ax25Flag :: (List.replicate 17 0xFF ++ [ax25Flag]))) =
      .ok (ax25Flag :: (List.replicate 17 0xFF ++ [ax25Flag])) :=
  (stuff_roundTrip (fun _ => rfl) (fun _ => rfl) (.inr rfl) rfl rfl).mpr
    (.inl ⟨rfl, by decide⟩)

/-- A U frame whose second check byte is zero. -/
theorem stuff_roundTrip_fails :
    ¬ Ax25.unstuff (destuff 5)
        (Ax25.stuff (stuff 5) (ax25Flag :: ((List.replicate 16 0xFF ++ [0]) ++ [ax25Flag]))) =
      .ok (ax25Flag :: ((List.replicate 16 0xFF ++ [0]) ++ [ax25Flag])) := by
  intro hround
  rcases (unstuff_stuff_iff (fun _ => rfl) (fun _ => rfl) (.inr rfl)).mp hround with
    ⟨-, hne⟩ | ⟨hlength, -⟩
  · exact hne rfl
  · simp at hlength

end ObcGsInterface
