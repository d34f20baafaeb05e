import ObcGsInterface.Verification.Pipeline.CheckSequence
import Mathlib.Data.List.Sections

/-! # A bit inserted into the check sequence

If the stuffer inserts a bit into the check sequence, `AX25.decode_frame` takes the first
eight of the bits behind the body for a byte of the body, and the next sixteen for the
check sequence. The checksum of the longer body is compared with these bits by exclusive or
alone, so that the last of them, which are padding, leave few bits to try. -/

namespace ObcGsInterface

open BitStream BitStuffing Transducer BigEndian

/-! ## The bits of the register -/

/-- The bits of the register, least significant first: the order in which they are sent. -/
def registerBits (crc : BitVec 16) : List Bool := (List.range 16).map crc.getLsbD

@[simp] theorem length_registerBits (crc : BitVec 16) : (registerBits crc).length = 16 := rfl

theorem registerBits_injective {crc crc' : BitVec 16} (h : registerBits crc = registerBits crc') :
    crc = crc' := by
  apply BitVec.eq_of_getLsbD_eq
  intro i hi
  have hbit := congrArg (·[i]?) h
  simpa [registerBits, List.getElem?_map, List.getElem?_range hi] using hbit

theorem bits_reverse (crc : BitVec 16) : bits (bytes16 (reverseUint16 crc)) = registerBits crc := by
  apply List.ext_getElem?
  intro i
  by_cases hi : i < 16
  · have hbit := getLsbD_join16 ((reverseUint16 crc >>> 8).setWidth 8)
      ((reverseUint16 crc).setWidth 8) hi
    rw [join16_bytes16, getLsbD_reverseUint16 _ (by omega), show 15 - (15 - i) = i by omega] at hbit
    rw [getElem?_bits _ hi, registerBits, List.getElem?_map, List.getElem?_range hi,
      Option.map_some, hbit]
    rfl
  · rw [List.getElem?_eq_none (by simpa using hi), List.getElem?_eq_none (by simpa using hi)]

theorem join16_eq_iff {high low : Byte} {crc : BitVec 16} :
    join16 high low = reverseUint16 crc ↔ bits [high, low] = registerBits crc := by
  rw [eq_comm, ← bytes16_eq_iff, ← bits_reverse]
  constructor
  · intro h
    rw [h]
  · intro h
    exact bits_injective h.symm

/-- The entry of the checksum table for the bits of an index. -/
def tableEntry : List Bool → List Bool
  | [u0, u1, u2, u3, u4, u5, u6, u7] =>
      [u0 ^^ u4, u1 ^^ u5, u2 ^^ u6, u3 ^^ u7, u4, u5 ^^ (u0 ^^ u4), u6 ^^ (u1 ^^ u5),
        u7 ^^ (u2 ^^ u6), u3 ^^ u7, u4, u5, u6, u7 ^^ (u0 ^^ u4), u1 ^^ u5, u2 ^^ u6, u3 ^^ u7]
  | _ => []

/-- The register after a round that the table serves with the entry at `index`. -/
def roundBits (low index : List Bool) : List Bool :=
  List.zipWith (· ^^ ·) (List.replicate 8 false ++ low) (tableEntry index)

theorem registerBits_crc16Ccitt (crc : BitVec 16) (byte : Byte) :
    registerBits (crc16Ccitt crc byte) =
      roundBits ((registerBits crc).take 8)
        (List.zipWith (· ^^ ·) ((registerBits crc).drop 8) (byteBits byte).reverse) := by
  simp [registerBits, crc16Ccitt, List.range_succ, byteBits, roundBits, tableEntry,
    BitVec.getMsbD_eq_getLsbD]
  grind

/-! ## All bit strings of a length -/

/-- The bit strings of length `n`. -/
def words (n : ℕ) : List (List Bool) := (List.replicate n [false, true]).sections

theorem mem_words (word : List Bool) : word ∈ words word.length := by
  rw [words, List.mem_sections]
  induction word with
  | nil => exact .nil
  | cons b word ih =>
      have hb : b ∈ [false, true] := by cases b <;> decide
      exact .cons hb ih

/-! ## What the ground station compares -/

variable (run : ℕ) (low index : List Bool)

/-- The upper half of the register that gives `index` with the byte read first. -/
def upperBits : List Bool :=
  List.zipWith (· ^^ ·) index ((output (stuffStep 5) run low).take 8).reverse

/-- The sixteen bits behind the byte read first are those of the register after it. -/
def Misread : Prop :=
  roundBits low index = ((output (stuffStep 5) run low).drop 8 ++
    (output (stuffStep 5) (final (stuffStep 5) run low) (upperBits run low index) ++
      List.replicate 16 false)).take 16

instance : Decidable (Misread run low index) := inferInstanceAs (Decidable (_ = _))

variable {run low index}

/-- The index that five zeros at the end leave, by the bits that they do not determine. -/
def solved : List Bool → List Bool → List Bool
  | [_, _, _, f3, f4, f5, f6, f7], [u0, u1, u3] =>
      [u0, u1, f6 ^^ f3, u3, u0 ^^ (u3 ^^ f7) ^^ f4, u1 ^^ f5, f3, u3 ^^ f7]
  | _, _ => []

theorem exists_solved (hlow : low.length = 8) (hindex : index.length = 8)
    (htail : (roundBits low index).drop 11 = List.replicate 5 false) :
    ∃ free ∈ words 3, index = solved low free := by
  match low, hlow, index, hindex with
  | [f0, f1, f2, f3, f4, f5, f6, f7], _, [u0, u1, u2, u3, u4, u5, u6, u7], _ =>
      refine ⟨[u0, u1, u3], mem_words [u0, u1, u3], ?_⟩
      simp [roundBits, tableEntry, List.replicate_succ] at htail
      rcases htail with ⟨rfl, rfl, rfl, rfl, rfl⟩
      simp [solved]

set_option maxRecDepth 4000 in
/-- Behind a control byte that ends in two ones, nothing is inserted into what passes. -/
theorem misread_two : ∀ low ∈ words 8, ∀ free ∈ words 3, Misread 2 low (solved low free) →
    (output (stuffStep 5) 2 (low ++ upperBits 2 low (solved low free))).length = 16 := by
  decide +kernel

set_option maxRecDepth 4000 in
/-- Behind four ones there are two exceptions. -/
theorem misread_four : ∀ low ∈ words 8, ∀ free ∈ words 3, Misread 4 low (solved low free) →
    (output (stuffStep 5) 4 (low ++ upperBits 4 low (solved low free))).length = 16 ∨
      low ++ upperBits 4 low (solved low free) ∈ [registerBits 0x7C8B, registerBits 0x8001] := by
  decide +kernel

/-! ## What passes -/

/-- The index and the upper half are made of each other in the same way. -/
theorem upperBits_upperBits (run : ℕ) {low index : List Bool} (hlow : low.length = 8)
    (hindex : index.length = 8) : upperBits run low (upperBits run low index) = index := by
  have hroom : 8 ≤ (output (stuffStep 5) run low).length := hlow ▸ length_le_length_output low
  have hread : (((output (stuffStep 5) run low).take 8).reverse).length = index.length := by
    rw [List.length_reverse, List.length_take, hindex, Nat.min_eq_left hroom]
  apply List.ext_getElem (by simp [upperBits, hread])
  intro i hi hi'
  simp [upperBits]

/-- Fewer than four bits are inserted behind four ones, unless all bits are ones. -/
theorem length_output_le {run : ℕ} (h : run ≤ 4) {bs : List Bool} (hlength : bs.length = 16)
    (hne : bs ≠ List.replicate 16 true) : (output (stuffStep 5) run bs).length ≤ 19 := by
  have hcount : bs.count true ≠ bs.length := by
    intro hall
    rw [List.count_eq_length] at hall
    exact hne (List.eq_replicate_iff.mpr ⟨hlength, fun b hb => (hall b hb).symm⟩)
  have hle : bs.count true ≤ bs.length := List.count_le_length
  have hoccurs := @length_output_stuffStep_count 5 run bs
  omega

/-- What passes is misread. -/
theorem misread_of_passes {run pad : ℕ} {crc : BitVec 16} {x₀ x₁ x₂ : Byte}
    (hbits : bits [x₀, x₁, x₂] =
      output (stuffStep 5) run (registerBits crc) ++ List.replicate pad false)
    (hpass : join16 x₁ x₂ = reverseUint16 (crc16Ccitt crc x₀)) :
    ∃ low index, low.length = 8 ∧ index.length = 8 ∧
      registerBits crc = low ++ upperBits run low index ∧
      bits [x₁, x₂] = roundBits low index ∧ Misread run low index := by
  set low := (registerBits crc).take 8 with hlow
  set high := (registerBits crc).drop 8 with hhigh
  have hsplit : registerBits crc = low ++ high := (List.take_append_drop 8 _).symm
  have hlowLength : low.length = 8 := rfl
  set first := output (stuffStep 5) run low with hfirst
  have hroom : 8 ≤ first.length := hlowLength ▸ length_le_length_output low
  rw [hsplit, output_append, ← hfirst, List.append_assoc] at hbits
  have hbyte : byteBits x₀ = first.take 8 := by
    have htake := congrArg (List.take 8) hbits
    rwa [List.take_append_of_le_length hroom] at htake
  have hrest : bits [x₁, x₂] = first.drop 8 ++
      (output (stuffStep 5) (final (stuffStep 5) run low) high ++ List.replicate pad false) := by
    have hdrop := congrArg (List.drop 8) hbits
    rwa [List.drop_append_of_le_length hroom] at hdrop
  set index := upperBits run low high with hindex
  have hupper : upperBits run low index = high := upperBits_upperBits run hlowLength rfl
  have hround : bits [x₁, x₂] = roundBits low index := by
    rw [join16_eq_iff.mp hpass, registerBits_crc16Ccitt, hindex, upperBits, ← hfirst, ← hbyte]
  have hindexLength : index.length = 8 := by
    rw [hindex, upperBits, ← hfirst, ← hbyte]
    rfl
  refine ⟨low, index, hlowLength, hindexLength, by rw [hupper, hsplit], hround, ?_⟩
  have hlength := congrArg List.length hrest
  simp only [length_bits, List.length_append, List.length_cons, List.length_nil,
    List.length_replicate] at hlength
  have hzeros : List.replicate 16 false =
      List.replicate pad false ++ List.replicate (16 - pad) false := by
    rw [← List.replicate_add, Nat.add_sub_cancel' (by omega)]
  rw [Misread, ← hfirst, hupper, ← hround, hrest, hzeros]
  simp only [← List.append_assoc]
  rw [List.take_left' (by simp only [List.length_append, List.length_replicate]; omega)]

/-- Sixteen ones behind two or four ones do not pass. -/
theorem not_misread_ones {run : ℕ} (hrun : run = 2 ∨ run = 4) {low index : List Bool}
    (hones : low ++ upperBits run low index = List.replicate 16 true) (hlow : low.length = 8)
    (hindex : index.length = 8) : ¬ Misread run low index := by
  have hsplit : List.replicate 16 true = List.replicate 8 true ++ List.replicate 8 true := rfl
  rw [hsplit] at hones
  rcases List.append_inj hones hlow with ⟨rfl, hupper⟩
  have hread := upperBits_upperBits run hlow hindex
  rw [hupper] at hread
  rw [← hread]
  rcases hrun with rfl | rfl
  · decide
  · decide

/-- Of the bits that were moved, those of two check sequences pass at most. -/
theorem listed_of_passes {run pad : ℕ} (hrun : run = 2 ∨ run = 4) {crc : BitVec 16}
    {x₀ x₁ x₂ : Byte}
    (hbits : bits [x₀, x₁, x₂] =
      output (stuffStep 5) run (registerBits crc) ++ List.replicate pad false) (hpad : pad < 8)
    (hpass : join16 x₁ x₂ = reverseUint16 (crc16Ccitt crc x₀)) :
    run = 4 ∧ (crc = 0x7C8B ∨ crc = 0x8001) := by
  have hlength := congrArg List.length hbits
  rw [length_bits, List.length_append, List.length_replicate, List.length_cons, List.length_cons,
    List.length_singleton] at hlength
  rcases misread_of_passes hbits hpass with ⟨low, index, hlow, hindex, hcrc, hround, hmisread⟩
  have hne : registerBits crc ≠ List.replicate 16 true := fun hones =>
    not_misread_ones hrun (hcrc ▸ hones) hlow hindex hmisread
  have hle := length_output_le (show run ≤ 4 by omega) (length_registerBits crc) hne
  have htail : (roundBits low index).drop 11 = List.replicate 5 false := by
    have hdrop : (bits [x₁, x₂]).drop 11 = (bits [x₀, x₁, x₂]).drop 19 := rfl
    rw [← hround, hdrop, hbits, List.drop_append, List.drop_of_length_le hle, List.nil_append,
      List.drop_replicate]
    congr 1
    omega
  rcases exists_solved hlow hindex htail with ⟨free, hfree, rfl⟩
  have hmem : low ∈ words 8 := hlow ▸ mem_words low
  rcases hrun with rfl | rfl
  · have hshort := misread_two low hmem free hfree hmisread
    rw [← hcrc] at hshort
    omega
  · have hshort := misread_four low hmem free hfree hmisread
    rw [← hcrc] at hshort
    rcases hshort with hshort | hlisted
    · omega
    · rw [List.mem_pair] at hlisted
      exact ⟨rfl, hlisted.imp registerBits_injective registerBits_injective⟩

/-- Bytes are determined by their first bits, if only zeros follow. -/
theorem eq_of_bits_append {xs ys : List Byte} {bs : List Bool} {m n : ℕ}
    (hx : bits xs = bs ++ List.replicate m false) (hy : bits ys = bs ++ List.replicate n false)
    (hlength : xs.length = ys.length) : xs = ys := by
  apply bits_injective
  have hm := congrArg List.length hx
  have hn := congrArg List.length hy
  rw [length_bits, List.length_append, List.length_replicate] at hm hn
  have hsame : m = n := by omega
  rw [hx, hy, hsame]

/-- **What passes.** Behind two ones it is nothing that was moved, and behind four ones it
is one of two check sequences. -/
theorem passes_iff {run pad : ℕ} (hrun : run = 2 ∨ run = 4) {crc : BitVec 16} {x₀ x₁ x₂ : Byte}
    (hbits : bits [x₀, x₁, x₂] =
      output (stuffStep 5) run (registerBits crc) ++ List.replicate pad false) (hpad : pad < 8) :
    join16 x₁ x₂ = reverseUint16 (crc16Ccitt crc x₀) ↔
      run = 4 ∧ (crc = 0x7C8B ∨ crc = 0x8001) := by
  constructor
  · exact listed_of_passes hrun hbits hpad
  · intro hlisted
    rcases hlisted with ⟨rfl, rfl | rfl⟩
    · have hread : bits [0xA8, 0x9F, 0x00] =
          output (stuffStep 5) 4 (registerBits 0x7C8B) ++ List.replicate 6 false := by decide
      cases eq_of_bits_append hbits hread rfl
      decide
    · have hread : bits [0x80, 0x00, 0x80] =
          output (stuffStep 5) 4 (registerBits 0x8001) ++ List.replicate 7 false := by decide
      cases eq_of_bits_append hbits hread rfl
      decide

end ObcGsInterface
