import ObcGsInterface.Verification.Fec.Correction

/-! # The decoder

What a call of the decoder shows to its caller, from any contents of its working arrays. -/

namespace ObcGsInterface

open Polynomial Finset FieldElement CArray ErrorLocator ShiftRegisterSynthesis

-- The tables are never evaluated in a proof.
attribute [local irreducible] fieldCreate

variable {p : BitVec 16} [PrimitivePoly p] {c g n : ℕ}

/-! ## Blocks and their syndromes -/

/-- The whole block that a shortened one stands for. -/
def fullBlock (word : List Byte) : List Byte := List.replicate (255 - word.length) 0 ++ word

/-- The message in a whole block, for a shortened block of the given length. -/
def messageOf (n length : ℕ) (word : List Byte) : List Byte :=
  (word.drop (255 - length)).take (length - n)

theorem length_fullBlock {word : List Byte} (h : word.length ≤ 255) :
    (fullBlock word).length = 255 := by
  rw [fullBlock, List.length_append, List.length_replicate]
  omega

theorem reverse_fullBlock (word : List Byte) :
    (fullBlock word).reverse = word.reverse ++ List.replicate (255 - word.length) 0 := by
  rw [fullBlock, List.reverse_append, List.reverse_replicate]

theorem length_messageOf {length : ℕ} {word : List Byte} (hword : word.length = 255)
    (hlength : length ≤ 255) : (messageOf n length word).length = length - n := by
  rw [messageOf, List.length_take, List.length_drop]
  omega

theorem messageOf_fullBlock (n : ℕ) (word : List Byte) :
    messageOf n word.length (fullBlock word) = word.take (word.length - n) := by
  rw [messageOf, fullBlock, List.drop_left' List.length_replicate]

theorem blockPolynomial_fullBlock (word : List Byte) :
    blockPolynomial p (fullBlock word) = blockPolynomial p word := by
  rw [blockPolynomial, reverse_fullBlock, ofTerms_append, ofTerms_replicate_zero, mul_zero,
    add_zero, blockPolynomial]

theorem vanishesAtRoots_fullBlock {word : List Byte} :
    VanishesAtRoots p c g n (fullBlock word) ↔ VanishesAtRoots p c g n word := by
  rw [VanishesAtRoots, VanishesAtRoots, blockPolynomial_fullBlock]

/-- The message that is copied out of the received polynomial. -/
theorem messageOf_reverse (cells : List Byte) {length : ℕ} (hcells : cells.length = 255)
    (hlength : length ≤ 255) :
    messageOf n length cells.reverse =
      (List.range (length - n)).map fun i => cells.getD (length - (i + 1)) 0 := by
  refine List.ext_getElem ?_ fun i hi hi' => ?_
  · simp only [messageOf, List.length_take, List.length_drop, List.length_reverse, List.length_map,
      List.length_range]
    omega
  · simp only [List.length_map, List.length_range] at hi'
    simp only [messageOf, List.getElem_take, List.getElem_drop, List.getElem_reverse,
      List.getElem_map, List.getElem_range]
    rw [List.getD_eq_getElem _ _ (by omega)]
    congr 1
    omega

variable (p c g n) in
/-- The syndromes of a block, as the coefficients of a polynomial. -/
noncomputable def syndromePolynomial (word : List Byte) : (FieldElement p)[X] :=
  ∑ i ∈ range n, C ((blockPolynomial p word).eval (generatorRoot p c g i)) * X ^ i

theorem coeff_syndromePolynomial (word : List Byte) (i : ℕ) :
    (syndromePolynomial p c g n word).coeff i =
      if i < n then (blockPolynomial p word).eval (generatorRoot p c g i) else 0 := by
  simp only [syndromePolynomial, finsetSum_coeff, coeff_C_mul, coeff_X_pow, mul_ite, mul_one,
    mul_zero, sum_ite_eq, mem_range]

variable (p c g n) in
/-- All syndromes but the last are zero. -/
def OnlyLastSyndrome (word : List Byte) : Prop :=
  (∀ i < n - 1, (blockPolynomial p word).eval (generatorRoot p c g i) = 0) ∧
    (blockPolynomial p word).eval (generatorRoot p c g (n - 1)) ≠ 0

theorem onlyLastSyndrome_iff {word : List Byte} (hn : 0 < n) : OnlyLastSyndrome p c g n word ↔
    (∀ k < n - 1, (syndromePolynomial p c g n word).coeff k = 0) ∧
      (syndromePolynomial p c g n word).coeff (n - 1) ≠ 0 := by
  rw [OnlyLastSyndrome, coeff_syndromePolynomial, if_pos (by omega)]
  refine and_congr_left fun _ => forall₂_congr fun k hk => ?_
  rw [coeff_syndromePolynomial, if_pos (by omega)]

theorem OnlyLastSyndrome.le_length {word : List Byte} (h : OnlyLastSyndrome p c g n word)
    (hn : 0 < n) {P : (FieldElement p)[X]} {L : ℕ}
    (hP : Generates (syndromePolynomial p c g n word) P L n) : n ≤ L :=
  have ⟨hzero, hlast⟩ := (onlyLastSyndrome_iff hn).mp h
  hP.le_length hn hzero hlast

/-! ## The corrected block -/

section Corrected

variable {word : List Byte} {P : (FieldElement p)[X]} {L : ℕ}

theorem ne_zero_of_mem_searchRoots (hP : P.coeff 0 = 1) {root : Byte}
    (hroot : root ∈ searchRoots p P 256) : root ≠ 0 := by
  rintro rfl
  have heval := eval_of_mem_searchRoots hroot
  rw [← zero_def, ← coeff_zero_eq_eval_zero, hP] at heval
  exact one_ne_zero heval

/-- A register with as many roots as its length is the locator of the reciprocals of the roots. -/
theorem eq_locator_searchRoots {S : (FieldElement p)[X]} (hP : Generates S P L n)
    (hroots : (searchRoots p P 256).length = L) :
    P = locator (searchRoots p P 256).toFinset (fun root => (⟨root⟩ : FieldElement p)⁻¹) ∧
      (searchRoots p P 256).toFinset.card = L := by
  have hcard : (searchRoots p P 256).toFinset.card = L := by
    rw [List.toFinset_card_of_nodup (nodup_searchRoots P le_rfl), hroots]
  refine ⟨eq_locator (fun root hroot => ?_) (fun a _ b _ heq => ?_) hP.coeff_zero ?_
    fun root hroot => ?_, hcard⟩
  · rw [List.mem_toFinset] at hroot
    exact inv_ne_zero (mt mk_eq_zero.mp (ne_zero_of_mem_searchRoots hP.coeff_zero hroot))
  · exact congrArg byte (inv_injective heq)
  · rw [hcard]
    exact hP.natDegree_le
  · rw [inv_inv]
    exact eval_of_mem_searchRoots (List.mem_toFinset.mp hroot)

variable (p c g n) in
/-- The block with the errors that a register stands for taken away. -/
noncomputable def correctedPolynomial (P : (FieldElement p)[X]) (word : List Byte) :
    (FieldElement p)[X] :=
  blockPolynomial p word + ((searchRoots p P 256).map fun root =>
    C (errorValue p c P (lowTerms n (P * syndromePolynomial p c g n word)) root) *
      X ^ errorLocationOf p g root).sum

/-- The value of an error, among the syndromes. -/
theorem errorValue_mul_pow (h : ValidCode g n) {root : Byte} (hroot : root ≠ 0)
    (evaluator : (FieldElement p)[X]) (i : ℕ) :
    errorValue p c P evaluator root * generatorRoot p c g i ^ errorLocationOf p g root =
      (⟨root⟩ : FieldElement p)⁻¹ * (evaluator.eval ⟨root⟩ / (derivative P).eval ⟨root⟩) *
        (⟨root⟩ : FieldElement p)⁻¹ ^ i := by
  have hne : (⟨root⟩ : FieldElement p) ≠ 0 := mt mk_eq_zero.mp hroot
  have hpoint : generatorRoot p c g i ^ errorLocationOf p g root =
      (⟨root⟩ : FieldElement p)⁻¹ ^ (i + c) := by
    rw [← (errorLocationOf_spec h hroot).2, generatorRoot, locationPoint, ← pow_mul, ← pow_mul]
    ring_nf
  rw [hpoint, errorValue, zpow_sub_one₀ hne, zpow_natCast, inv_pow, inv_pow, pow_add]
  generalize evaluator.eval ⟨root⟩ / (derivative P).eval ⟨root⟩ = quotient
  field_simp

/-- **The corrected block is a codeword.** -/
theorem eval_correctedPolynomial (h : ValidCode g n)
    (hP : Generates (syndromePolynomial p c g n word) P L n)
    (hroots : (searchRoots p P 256).length = L) {i : ℕ} (hi : i < n) :
    (correctedPolynomial p c g n P word).eval (generatorRoot p c g i) = 0 := by
  obtain ⟨hlocator, hcard⟩ := eq_locator_searchRoots hP hroots
  obtain ⟨Ω, hΩ⟩ : ∃ Ω, lowTerms n (P * syndromePolynomial p c g n word) = Ω := ⟨_, rfl⟩
  have hsum := @coeff_eq_powerSum _ _ _ (searchRoots p P 256).toFinset
    (fun root => (⟨root⟩ : FieldElement p)⁻¹) _
    (fun root hroot => inv_ne_zero (mt mk_eq_zero.mp
      (ne_zero_of_mem_searchRoots hP.coeff_zero (List.mem_toFinset.mp hroot))))
    (fun a _ b _ heq => congrArg byte (inv_injective heq))
    (syndromePolynomial p c g n word) Ω n (by rw [← hlocator, hcard]; exact hP)
    (fun j hj => by rw [← hlocator, ← hΩ, coeff_lowTerms, if_pos hj])
    (by rw [← hΩ]; exact degree_lowTerms_lt _ _) i hi
  rw [← hlocator, coeff_syndromePolynomial, if_pos hi] at hsum
  rw [correctedPolynomial, eval_add, hsum, ← List.sum_toFinset _ (nodup_searchRoots P le_rfl),
    eval_finsetSum, hΩ, ← sum_add_distrib]
  refine sum_eq_zero fun root hroot => ?_
  have hne := ne_zero_of_mem_searchRoots hP.coeff_zero (List.mem_toFinset.mp hroot)
  rw [eval_mul, eval_C, eval_pow, eval_X, errorValue_mul_pow h hne, inv_inv, neg_eq]
  exact add_self _

theorem coeff_correctedPolynomial {j : ℕ}
    (hj : ∀ root ∈ searchRoots p P 256, errorLocationOf p g root ≠ j) :
    (correctedPolynomial p c g n P word).coeff j = (blockPolynomial p word).coeff j := by
  rw [correctedPolynomial, coeff_add, ← List.sum_toFinset _ (nodup_searchRoots P le_rfl),
    finsetSum_coeff, sum_eq_zero, add_zero]
  intro root hroot
  rw [coeff_C_mul, coeff_X_pow, if_neg (hj root (List.mem_toFinset.mp hroot)).symm, mul_zero]

/-- There is a block with the corrected polynomial, and it differs from the received one in no
more places than the register is long. -/
theorem exists_corrected (h : ValidCode g n) (hword : word.length ≤ 255)
    (hP : Generates (syndromePolynomial p c g n word) P L n)
    (hroots : (searchRoots p P 256).length = L) :
    ∃ result : List Byte, result.length = 255 ∧
      blockPolynomial p result = correctedPolynomial p c g n P word ∧
      wrongBytes (fullBlock word) result ≤ L := by
  have hdegree : (correctedPolynomial p c g n P word).degree < (255 : ℕ) := by
    rw [degree_lt_iff_coeff_zero]
    intro j hj
    rw [coeff_correctedPolynomial fun root hroot => ?_]
    · exact coeff_ofTerms_of_le (by rw [List.length_reverse]; omega)
    · have hne := ne_zero_of_mem_searchRoots hP.coeff_zero hroot
      exact Nat.ne_of_lt (Nat.lt_of_lt_of_le (errorLocationOf_spec h hne).1 hj)
  obtain ⟨terms, hlength, hterms⟩ := exists_ofTerms_eq hdegree
  have hresult : blockPolynomial p terms.reverse = correctedPolynomial p c g n P word := by
    rw [blockPolynomial, List.reverse_reverse, hterms]
  have hsize : terms.reverse.length = (fullBlock word).length := by
    rw [List.length_reverse, hlength, length_fullBlock hword]
  refine ⟨terms.reverse, by rw [List.length_reverse, hlength], hresult, ?_⟩
  rw [← card_errorLocationSet hsize, ← hroots, ← List.toFinset_card_of_nodup
    (nodup_searchRoots P le_rfl)]
  refine (card_le_card fun j hj => ?_).trans (card_image_le (f := errorLocationOf p g))
  by_contra hnone
  have hsame := congrArg (fun Q => Q.coeff j) hresult
  rw [coeff_correctedPolynomial fun root hroot heq =>
      hnone (mem_image.mpr ⟨root, List.mem_toFinset.mpr hroot, heq⟩),
    ← blockPolynomial_fullBlock word, blockPolynomial, blockPolynomial, coeff_ofTerms,
    coeff_ofTerms] at hsame
  exact (mem_filter.mp hj).2 (congrArg byte hsame)

end Corrected

/-! ## One call -/

/-- The result of a call and the message buffer behind it. -/
def decodeCall {m : ℕ} (rs : DecodingReedSolomon) (buffers : DecoderBuffers 255 n)
    (encoded : List Byte) (msg : Block Byte m) : Except Fault (ℤ × List Byte) := do
  let (result, _, msg) ← correctReedSolomonDecode rs buffers encoded encoded.length msg
  return (result, msg.cells)

theorem decodeCall_eq_ok {m : ℕ} {rs : DecodingReedSolomon} {buffers : DecoderBuffers 255 n}
    {encoded : List Byte} {msg : Block Byte m} {result : ℤ} {cells : List Byte} :
    decodeCall rs buffers encoded msg = .ok (result, cells) ↔ ∃ buffers' msg',
      correctReedSolomonDecode rs buffers encoded encoded.length msg =
        .ok (result, buffers', msg') ∧ msg'.cells = cells := by
  rw [decodeCall, bind_eq_ok]
  constructor
  · rintro ⟨⟨result', buffers', msg'⟩, hrun, hresult⟩
    cases hresult
    exact ⟨buffers', msg', hrun, rfl⟩
  · rintro ⟨buffers', msg', hrun, rfl⟩
    exact ⟨_, hrun, rfl⟩

/-- How a call reports that it found no message, or the message that it found. -/
def report (msg : List Byte) : Option (List Byte) → ℤ × List Byte
  | none => (-1, msg)
  | some message => (message.length, overwrite msg 0 message)

theorem report_message (msg : List Byte) {message : List Byte} {length : ℕ} (hn : n ≤ length)
    (h : message.length = length - n) :
    report msg (some message) = ((length : ℤ) - n, overwrite msg 0 message) := by
  rw [report, h, Nat.cast_sub hn]

variable (p c g n) in
/-- What the decoder makes of a block. -/
inductive DecodesBlock (encoded : List Byte) : Except Fault (Option (List Byte)) → Prop
  | intact (hvanish : VanishesAtRoots p c g n encoded) :
      DecodesBlock encoded (.ok (some (encoded.take (encoded.length - n))))
  | outOfBounds (hlast : OnlyLastSyndrome p c g n encoded) :
      DecodesBlock encoded (.error .outOfBounds)
  | notFactorized {P : (FieldElement p)[X]} {L : ℕ}
      (hshortest : Shortest (syndromePolynomial p c g n encoded) P L n) (hlt : L < n)
      (hroots : (searchRoots p P 256).length ≠ L) : DecodesBlock encoded (.ok none)
  | corrected {P : (FieldElement p)[X]} {L : ℕ} {word : List Byte}
      (hshortest : Shortest (syndromePolynomial p c g n encoded) P L n) (hlt : L < n)
      (hlength : word.length = 255) (hvanish : VanishesAtRoots p c g n word)
      (hwrong : wrongBytes (fullBlock encoded) word ≤ L) :
      DecodesBlock encoded (.ok (some (messageOf n encoded.length word)))

/-! ## The stages of a call -/

section Stages

variable (p c g) in
/-- A block with its syndromes, when the decoder looks whether they are all zero. -/
structure SyndromeStage (encoded : List Byte) (received : Block Byte 255) (allZero : Bool)
    (syndromes : Block Byte n) : Prop where
  receive_eq : ∀ stale : Block Byte 255, receive stale encoded encoded.length = .ok received
  cells : received.cells = (fullBlock encoded).reverse
  findSyndromes_eq : ∀ stale : Block Byte n, reedSolomonFindSyndromes (fieldCreate p)
    received.cells (decodingReedSolomonCreate p c g n).generatorRootExp stale n =
      .ok (allZero, syndromes)
  syndromes_eq : bufferPolynomial p syndromes = syndromePolynomial p c g n encoded
  allZero_iff : allZero = true ↔ VanishesAtRoots p c g n encoded

variable (p c g) in
/-- The locator of a block that is not a codeword, when the decoder looks for its roots. -/
structure LocatorStage (encoded : List Byte) (syndromes : Block Byte n)
    (locator last : PolynomialBuffer (n + 1)) (terms : List Byte) (P : (FieldElement p)[X]) :
    Prop where
  findErrorLocator_eq : ∀ errorLocator lastErrorLocator : PolynomialBuffer (n + 1),
    reedSolomonFindErrorLocator (fieldCreate p) syndromes.cells n 0 errorLocator
      lastErrorLocator = .ok (locator, last)
  locator_eq : bufferPolynomial p locator.coeff = P
  shortest : Shortest (syndromePolynomial p c g n encoded) P locator.order n
  order_pos : 0 < locator.order
  order_le : locator.order ≤ n
  coeff_order : locator.order = n → P.coeff n ≠ 0
  terms_eq : locator.terms = .ok terms
  length_terms : terms.length = locator.order + 1
  ofTerms_eq : ofTerms p terms = P

variable {encoded terms : List Byte} {received : Block Byte 255} {allZero : Bool}
  {syndromes : Block Byte n} {locator last : PolynomialBuffer (n + 1)} {P : (FieldElement p)[X]}

theorem exists_syndromeStage (hlength : encoded.length ≤ 255) :
    ∃ received allZero, ∃ syndromes : Block Byte n,
      SyndromeStage p c g encoded received allZero syndromes := by
  obtain ⟨received, hreceive, hcells⟩ := receive_spec hlength
  rw [← reverse_fullBlock] at hcells
  obtain ⟨allZero, syndromes, hfind, hvalues, hall⟩ :=
    findSyndromes_spec (p := p) (c := c) (g := g) (n := n) received.length_cells
  have hpoly : ofTerms p received.cells = blockPolynomial p encoded := by
    rw [hcells, ← blockPolynomial, blockPolynomial_fullBlock]
  rw [hpoly] at hvalues hall
  refine ⟨received, allZero, syndromes, hreceive, hcells, hfind, ?_, hall⟩
  ext1 i
  rw [coeff_bufferPolynomial, coeff_syndromePolynomial]
  split
  · next hi => exact hvalues i hi
  · next hi =>
      rw [List.getD_eq_default _ _ (by rw [syndromes.length_cells]; omega)]
      rfl

/-- A register of length zero generates the zero sequence only. -/
theorem vanishes_of_generates_zero (hP : Generates (syndromePolynomial p c g n encoded) P 0 n) :
    VanishesAtRoots p c g n encoded := by
  intro i hi
  have hcoeff := hP.coeff_eq i (Nat.zero_le i) hi
  rwa [coeff_mul_of_coeff_zero hP.coeff_zero hP.natDegree_le fun j hj hji => by omega,
    coeff_syndromePolynomial, if_pos hi] at hcoeff

theorem exists_locatorStage (h : ValidCode g n)
    (hstage : SyndromeStage p c g encoded received allZero syndromes)
    (hne : ¬ VanishesAtRoots p c g n encoded) :
    ∃ locator last terms P, LocatorStage p c g encoded syndromes locator last terms P := by
  obtain ⟨locator, last, hlocate, hshortest, horder, hfull⟩ :=
    findErrorLocator_spec (p := p) syndromes.length_cells h.lt (Nat.zero_le n)
  rw [← bufferPolynomial, hstage.syndromes_eq] at hshortest
  simp only [Nat.sub_zero] at hshortest horder hfull
  obtain ⟨terms, hterms, hlength, hpoly⟩ :=
    terms_spec (p := p) horder hshortest.natDegree_le
  have hpos : 0 < locator.order := by
    refine Nat.pos_of_ne_zero fun hzero => hne ?_
    rw [hzero] at hshortest
    exact vanishes_of_generates_zero hshortest.toGenerates
  refine ⟨locator, last, terms, _, hlocate, rfl, hshortest, hpos, horder, fun hn => ?_, hterms,
    hlength, hpoly⟩
  have hcoeff := hfull hn h.pos
  rwa [hn] at hcoeff

variable {m : ℕ} {buffers : DecoderBuffers 255 n} {msg : Block Byte m}

theorem decodeCall_intact (hn : n ≤ encoded.length) (hlength : encoded.length ≤ 255)
    (hstage : SyndromeStage p c g encoded received true syndromes)
    (hm : encoded.length - n ≤ m) :
    decodeCall (decodingReedSolomonCreate p c g n) buffers encoded msg =
      .ok (report msg.cells (some (encoded.take (encoded.length - n)))) := by
  have hroom : ¬ encoded.length > (decodingReedSolomonCreate p c g n).blockLength :=
    Nat.not_lt.mpr hlength
  have hfield : (decodingReedSolomonCreate p c g n).field = fieldCreate p := rfl
  have hdistance : (decodingReedSolomonCreate p c g n).minDistance = n := rfl
  obtain ⟨result, hcopy, hresult⟩ := copyMessage_spec received hn hlength msg hm
  have hmessage : messageOf n encoded.length received.cells.reverse =
      encoded.take (encoded.length - n) := by
    rw [hstage.cells, List.reverse_reverse, messageOf_fullBlock]
  rw [← messageOf_reverse _ received.length_cells hlength, hmessage] at hresult
  simp only [decodeCall, correctReedSolomonDecode, if_neg hroom, hstage.receive_eq, hfield,
    hdistance, hstage.findSyndromes_eq, hcopy, ok_bind, if_true, pure_eq_ok]
  rw [hresult, report_message _ hn (by rw [List.length_take]; omega)]

/-- The roots that the decoder finds for a locator shorter than its array. -/
theorem LocatorStage.factorize (hpos : 0 < n)
    (hstage : LocatorStage p c g encoded syndromes locator last terms P)
    (hlt : locator.order < n) (stale : Block Byte (2 * n)) :
    ∃ roots, reedSolomonFactorizeErrorLocator (fieldCreate p) 0
        (terms.map (fieldCreate p).logAt) stale (decodingReedSolomonCreate p c g n).elementExp =
      .ok (decide ((searchRoots p P 256).length = locator.order), roots) ∧
      roots.cells.take (searchRoots p P 256).length = searchRoots p P 256 := by
  have hlength := hstage.length_terms
  have hconstant : (ofTerms p terms).coeff 0 = 1 := by
    rw [hstage.ofTerms_eq]
    exact hstage.shortest.coeff_zero
  obtain ⟨roots, hrun, hroots⟩ := factorize_spec (p := p) (c := c) (g := g) hpos
    (List.ne_nil_of_length_eq_add_one hlength) (fun j hj _ => by omega) hconstant
    (by omega : 0 + terms.length ≤ 2 * n + 1) stale
  simp only [hstage.ofTerms_eq, hlength, Nat.add_sub_cancel, Nat.zero_add, List.take_zero,
    List.nil_append] at hrun hroots
  exact ⟨roots, hrun, hroots⟩

theorem decodeCall_notFactorized (hpos : 0 < n) (hlength : encoded.length ≤ 255)
    (hstage : SyndromeStage p c g encoded received false syndromes)
    (hlocator : LocatorStage p c g encoded syndromes locator last terms P)
    (hlt : locator.order < n) (hroots : (searchRoots p P 256).length ≠ locator.order) :
    decodeCall (decodingReedSolomonCreate p c g n) buffers encoded msg =
      .ok (report msg.cells none) := by
  have hroom : ¬ encoded.length > (decodingReedSolomonCreate p c g n).blockLength :=
    Nat.not_lt.mpr hlength
  have hfield : (decodingReedSolomonCreate p c g n).field = fieldCreate p := rfl
  have hdistance : (decodingReedSolomonCreate p c g n).minDistance = n := rfl
  obtain ⟨log, hlog, hlogTerms⟩ := locatorToLog_spec (p := p) hlocator.order_le
    hlocator.terms_eq buffers.errorLocatorLog
  obtain ⟨errorRoots, hrun, -⟩ := hlocator.factorize hpos hlt buffers.errorRoots
  simp only [decodeCall, correctReedSolomonDecode, if_neg hroom, hstage.receive_eq, hfield,
    hdistance, hstage.findSyndromes_eq, hlocator.findErrorLocator_eq, hlog, hlogTerms, hrun,
    decide_eq_false hroots, ok_bind, Bool.false_eq_true, if_false, Bool.not_false, if_true]
  rfl

/-- A locator as long as its array is read past the end. -/
theorem decodeCall_fullLocator (hpos : 0 < n) (hlength : encoded.length ≤ 255)
    (hstage : SyndromeStage p c g encoded received false syndromes)
    (hlocator : LocatorStage p c g encoded syndromes locator last terms P)
    (hfull : locator.order = n) :
    decodeCall (decodingReedSolomonCreate p c g n) buffers encoded msg = .error .outOfBounds := by
  have hroom : ¬ encoded.length > (decodingReedSolomonCreate p c g n).blockLength :=
    Nat.not_lt.mpr hlength
  have hfield : (decodingReedSolomonCreate p c g n).field = fieldCreate p := rfl
  have hdistance : (decodingReedSolomonCreate p c g n).minDistance = n := rfl
  obtain ⟨log, hlog, hlogTerms⟩ := locatorToLog_spec (p := p) hlocator.order_le
    hlocator.terms_eq buffers.errorLocatorLog
  have hlast : terms.getD n 0 ≠ 0 := by
    have hcoeff := hlocator.coeff_order hfull
    rwa [← hlocator.ofTerms_eq, coeff_ofTerms, ne_eq, mk_eq_zero] at hcoeff
  have hconstant : (ofTerms p terms).coeff 0 = 1 := by
    rw [hlocator.ofTerms_eq]
    exact hlocator.shortest.coeff_zero
  have hfault := factorize_outOfBounds (p := p) (c := c) (g := g) hpos
    (by rw [hlocator.length_terms, hfull]) hlast hconstant (by omega) buffers.errorRoots
  simp only [decodeCall, correctReedSolomonDecode, if_neg hroom, hstage.receive_eq, hfield,
    hdistance, hstage.findSyndromes_eq, hlocator.findErrorLocator_eq, hlog, hlogTerms, hfault,
    ok_bind, Bool.false_eq_true, if_false, error_bind]

/-- With as many roots as the locator is long, the message is that of the corrected block. -/
theorem decodeCall_corrected (h : ValidCode g n) (hn : n ≤ encoded.length)
    (hlength : encoded.length ≤ 255)
    (hstage : SyndromeStage p c g encoded received false syndromes)
    (hlocator : LocatorStage p c g encoded syndromes locator last terms P)
    (hlt : locator.order < n) (hroots : (searchRoots p P 256).length = locator.order)
    {word : List Byte} (hwordLength : word.length = 255)
    (hword : blockPolynomial p word = correctedPolynomial p c g n P encoded)
    (hm : encoded.length - n ≤ m) :
    decodeCall (decodingReedSolomonCreate p c g n) buffers encoded msg =
      .ok (report msg.cells (some (messageOf n encoded.length word))) := by
  have hroom : ¬ encoded.length > (decodingReedSolomonCreate p c g n).blockLength :=
    Nat.not_lt.mpr hlength
  have hfield : (decodingReedSolomonCreate p c g n).field = fieldCreate p := rfl
  have hdistance : (decodingReedSolomonCreate p c g n).minDistance = n := rfl
  have hgap : (decodingReedSolomonCreate p c g n).generatorRootGap = g := rfl
  have hpos := hlocator.order_pos
  have hpoly : ofTerms p received.cells = blockPolynomial p encoded := by
    rw [hstage.cells, ← blockPolynomial, blockPolynomial_fullBlock]
  obtain ⟨log, hlog, hlogTerms⟩ := locatorToLog_spec (p := p) hlocator.order_le
    hlocator.terms_eq buffers.errorLocatorLog
  obtain ⟨errorRoots, hrun, hrootsCells⟩ := hlocator.factorize h.pos hlt buffers.errorRoots
  have hR (root : Byte) (hroot : root ∈ searchRoots p P 256) : root ≠ 0 :=
    ne_zero_of_mem_searchRoots hlocator.shortest.coeff_zero hroot
  obtain ⟨errorLocations, hlocations, hlocationsCells⟩ :=
    findErrorLocations_spec (p := p) h hR (by omega) hrootsCells buffers.errorLocations
  obtain ⟨filled, hvaluesRun, hreceivedEq, hlocatorEq, hlocationsEq, hvaluesCells⟩ :=
    @findErrorValues_spec p _ c g n
      { buffers with
        receivedPolynomial := received
        syndromes := syndromes
        errorLocator := locator
        lastErrorLocator := last
        errorLocatorLog := log
        errorRoots := errorRoots
        errorLocations := errorLocations }
      (searchRoots p P 256) P h.pos hlocator.locator_eq hroots.symm
      (hlocator.shortest.natDegree_le.trans hroots.ge) (by omega) (by omega) hR hrootsCells
  simp only [hstage.syndromes_eq] at hreceivedEq hlocatorEq hlocationsEq hvaluesCells
  obtain ⟨result, hsubtract, hresult⟩ := subtractErrors_spec (p := p)
    (by rw [hlocatorEq, hroots]) (fun root hroot => (errorLocationOf_spec h (hR root hroot)).1)
    (by rw [hlocationsEq]; exact hlocationsCells) hvaluesCells
  have hreverse : result.cells.reverse = word := by
    rw [hreceivedEq, hpoly, ← correctedPolynomial, ← hword, blockPolynomial] at hresult
    rw [List.reverse_eq_iff]
    refine ofTerms_injective ?_ hresult
    rw [result.length_cells, List.length_reverse, hwordLength]
  obtain ⟨copied, hcopy, hcopied⟩ := copyMessage_spec result hn hlength msg hm
  rw [← messageOf_reverse _ result.length_cells hlength, hreverse] at hcopied
  rw [hroots] at hlocations
  simp only [decodeCall, correctReedSolomonDecode, if_neg hroom, hstage.receive_eq, hfield,
    hdistance, hgap, hstage.findSyndromes_eq, hlocator.findErrorLocator_eq, hlog, hlogTerms, hrun,
    decide_eq_true hroots, ok_bind, Bool.false_eq_true, if_false, Bool.not_true, hlocations,
    hvaluesRun, hsubtract, hcopy, pure_eq_ok]
  rw [hcopied, report_message _ hn (length_messageOf hwordLength hlength)]

end Stages

/-- **The decoder.** What a call reports depends on the block alone, not on what earlier calls
have left in the working arrays. -/
theorem decodeCall_spec (h : ValidCode g n) {encoded : List Byte} (hn : n ≤ encoded.length)
    (hlength : encoded.length ≤ 255) :
    ∃ outcome, DecodesBlock p c g n encoded outcome ∧
      ∀ (m : ℕ) (buffers : DecoderBuffers 255 n) (msg : Block Byte m), encoded.length - n ≤ m →
        decodeCall (decodingReedSolomonCreate p c g n) buffers encoded msg =
          report msg.cells <$> outcome := by
  obtain ⟨received, allZero, syndromes, hstage⟩ :=
    exists_syndromeStage (p := p) (c := c) (g := g) (n := n) hlength
  cases allZero with
  | true =>
      exact ⟨_, .intact (hstage.allZero_iff.mp rfl), fun m buffers msg hm =>
        decodeCall_intact hn hlength hstage hm⟩
  | false =>
      obtain ⟨locator, last, terms, P, hlocator⟩ := exists_locatorStage h hstage fun hvanish =>
        Bool.false_ne_true (hstage.allZero_iff.mpr hvanish)
      have hshortest := hlocator.shortest
      rcases Nat.lt_or_ge locator.order n with hlt | hge
      · by_cases hroots : (searchRoots p P 256).length = locator.order
        · obtain ⟨word, hwordLength, hword, hwrong⟩ :=
            exists_corrected h hlength hshortest.toGenerates hroots
          have hcodeword : VanishesAtRoots p c g n word := fun i hi => by
            rw [hword]
            exact eval_correctedPolynomial h hshortest.toGenerates hroots hi
          exact ⟨_, .corrected hshortest hlt hwordLength hcodeword hwrong,
            fun m buffers msg hm =>
              decodeCall_corrected h hn hlength hstage hlocator hlt hroots hwordLength hword hm⟩
        · exact ⟨_, .notFactorized hshortest hlt hroots, fun m buffers msg _ =>
            decodeCall_notFactorized h.pos hlength hstage hlocator hlt hroots⟩
      · have hlast : OnlyLastSyndrome p c g n encoded :=
          (onlyLastSyndrome_iff h.pos).mpr ((hshortest.le_length_iff h.pos).mp hge)
        exact ⟨_, .outOfBounds hlast, fun m buffers msg _ =>
          decodeCall_fullLocator h.pos hlength hstage hlocator
            (Nat.le_antisymm hlocator.order_le hge)⟩

end ObcGsInterface
