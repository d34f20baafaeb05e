import ObcGsInterface.Verification.Fec.Code
import ObcGsInterface.Verification.Fec.Locator

/-! # The search for errors

The steps of the decoder around the error locator: the syndromes in front of it, and the roots,
locations and values of the errors behind it. Each step is stated for whatever an earlier call
has left in the array that it writes. -/

namespace ObcGsInterface

open Polynomial Finset FieldElement CArray

-- The tables are never evaluated in a proof.
attribute [local irreducible] fieldCreate

variable {p : BitVec 16} [PrimitivePoly p] {c g n : ℕ}

/-! ## The tables of the instance -/

theorem load_generatorRootExp {i : ℕ} (hi : i < n) :
    ∃ root powers, load (decodingReedSolomonCreate p c g n).generatorRootExp i = .ok powers ∧
      IsExpLut p root 255 powers ∧ (⟨root⟩ : FieldElement p) = generatorRoot p c g i := by
  refine ⟨_, _, ?_, polynomialBuildExpLut_spec ((fieldCreate p).expAt (g * (i + c) % 255)) 254,
    generatorRoots_eq i⟩
  have htable : (decodingReedSolomonCreate p c g n).generatorRootExp =
      (List.range n).map fun i => polynomialBuildExpLut (fieldCreate p)
        (((List.range n).map fun i => (fieldCreate p).expAt (g * (i + c) % 255)).getD i 0) 254 := rfl
  rw [htable, load_of_lt _ (by simpa using hi)]
  simp only [List.getElem_map, List.getElem_range]
  rw [List.getD_eq_getElem _ _ (by simpa using hi)]
  simp only [List.getElem_map, List.getElem_range]

theorem load_elementExp (hn : 0 < n) (element : Byte) :
    ∃ powers, load (decodingReedSolomonCreate p c g n).elementExp element.toNat = .ok powers ∧
      IsExpLut p element n powers := by
  have hlut := polynomialBuildExpLut_spec (p := p) element (n - 1)
  rw [Nat.sub_add_cancel hn] at hlut
  refine ⟨_, ?_, hlut⟩
  have htable : (decodingReedSolomonCreate p c g n).elementExp =
      (List.range 256).map fun i => polynomialBuildExpLut (fieldCreate p) (BitVec.ofNat 8 i) (n - 1) :=
    rfl
  have helement := element.isLt
  rw [htable, load_of_lt _ (by simpa using helement)]
  simp only [List.getElem_map, List.getElem_range, BitVec.ofNat_toNat, BitVec.setWidth_eq]

/-! ## Receiving a block -/

/-- A loop that stores values from a place on. -/
theorem foldlM_store_shifted {m : ℕ} (values : List Byte) (start : ℕ)
    (body : Block Byte m → ℕ → Except Fault (Block Byte m)) (data : Block Byte m)
    (hbody : ∀ block j (h : j < values.length), body block j = block.store (j + start) values[j])
    (hroom : start + values.length ≤ m) :
    ∃ result, (List.range values.length).foldlM body data = .ok result ∧
      result.cells = overwrite data.cells start values := by
  obtain ⟨result, hrun, hcells⟩ := @Block.foldlM_store _ m (fun block j => body block (j - start))
    values start data
    (by
      intro block j hj
      rw [Nat.add_sub_cancel_left, hbody block j hj, Nat.add_comm])
    hroom
  refine ⟨result, ?_, hcells⟩
  rw [List.range'_eq_map_range, List.foldlM_map] at hrun
  rw [← hrun]
  congr 1
  funext block j
  rw [Nat.add_sub_cancel_left]

/-- The block in reverse order, below zeros. -/
theorem receive_spec {encoded : List Byte} (hlength : encoded.length ≤ 255) :
    ∃ received : Block Byte 255,
      (∀ stale : Block Byte 255, receive stale encoded encoded.length = .ok received) ∧
      received.cells = encoded.reverse ++ List.replicate (255 - encoded.length) 0 := by
  obtain ⟨received, hreceived⟩ : ∃ received : Block Byte 255,
      received.cells = encoded.reverse ++ List.replicate (255 - encoded.length) 0 :=
    ⟨⟨_, by simp [hlength]⟩, rfl⟩
  refine ⟨received, fun stale => ?_, hreceived⟩
  obtain ⟨front, hfront, hfrontCells⟩ := foldlM_store_shifted encoded.reverse 0
    (fun received i => do received.store i (← load encoded (encoded.length - (i + 1)))) stale
    (by
      intro block j hj
      have hj' : j < encoded.length := by simpa using hj
      rw [load_of_lt _ (by omega), ok_bind, List.getElem_reverse]
      simp only [Nat.add_zero]
      congr 2
      omega)
    (by simpa using hlength)
  obtain ⟨whole, hwhole, hwholeCells⟩ := foldlM_store_shifted
    (List.replicate (255 - encoded.length) 0) encoded.length
    (fun (received : Block Byte 255) i => received.store (i + encoded.length) 0) front
    (by
      intro block j hj
      rw [List.getElem_replicate])
    (by simp [hlength])
  rw [List.length_reverse] at hfront
  rw [List.length_replicate] at hwhole
  have hsame : whole = received := by
    ext1
    rw [hwholeCells, hreceived, hfrontCells, overwrite, overwrite, List.take_zero, List.nil_append]
    simp
  rw [receive, hfront, ok_bind, hwhole, hsame]

/-- Copying out the message, and what lies behind it in the array. -/
theorem copyMessage_spec {m : ℕ} (received : Block Byte 255) {length : ℕ} (hn : n ≤ length)
    (hlength : length ≤ 255) (msg : Block Byte m) (hm : length - n ≤ m) :
    ∃ result, copyMessage received.cells length n msg = .ok result ∧
      result.cells = overwrite msg.cells 0
        ((List.range (length - n)).map fun i => received.cells.getD (length - (i + 1)) 0) := by
  obtain ⟨values, hvalues⟩ : ∃ values, values = (List.range (length - n)).map fun i =>
      received.cells.getD (length - (i + 1)) 0 := ⟨_, rfl⟩
  have hsize : values.length = length - n := by rw [hvalues, List.length_map, List.length_range]
  obtain ⟨result, hrun, hcells⟩ := foldlM_store_shifted values 0
    (fun msg i => do msg.store i (← load received.cells (length - (i + 1)))) msg
    (by
      intro block j hj
      rw [received.load_cells 0 (by omega), ok_bind]
      simp only [Nat.add_zero, hvalues, List.getElem_map, List.getElem_range])
    (by omega)
  rw [hsize] at hrun
  refine ⟨result, ?_, by rw [hcells, hvalues]⟩
  rw [copyMessage, if_neg (Nat.not_lt.mpr hn)]
  exact hrun

/-! ## Syndromes -/

theorem findSyndromes_spec {msgpoly : List Byte} (hlength : msgpoly.length = 255) :
    ∃ (allZero : Bool) (syndromes : Block Byte n),
      (∀ stale : Block Byte n, reedSolomonFindSyndromes (fieldCreate p) msgpoly
        (decodingReedSolomonCreate p c g n).generatorRootExp stale n = .ok (allZero, syndromes)) ∧
      (∀ i < n, (⟨syndromes.cells.getD i 0⟩ : FieldElement p) =
        (ofTerms p msgpoly).eval (generatorRoot p c g i)) ∧
      (allZero = true ↔ ∀ i < n, (ofTerms p msgpoly).eval (generatorRoot p c g i) = 0) := by
  have hne : msgpoly ≠ [] := by
    rw [← List.length_pos_iff, hlength]
    decide
  obtain ⟨⟨allZero, syndromes⟩, hrun, hall, hvalues⟩ := @Loop.foldlM_range_stages _
    (fun (s : Bool × Block Byte n) i => do
      let eval ← polynomialEvalLut (fieldCreate p) msgpoly
        (← load (decodingReedSolomonCreate p c g n).generatorRootExp i)
      let allZero := if eval ≠ 0 then false else s.1
      let syndromes ← s.2.store i eval
      return (allZero, syndromes))
    (fun i (s : Bool × Block Byte n) =>
      (s.1 = true ↔ ∀ k < i, (ofTerms p msgpoly).eval (generatorRoot p c g k) = 0) ∧
      ∀ k < i, (⟨s.2.cells.getD k 0⟩ : FieldElement p) =
        (ofTerms p msgpoly).eval (generatorRoot p c g k))
    n
    (by
      rintro i ⟨allZero, syndromes⟩ hi ⟨hall, hvalues⟩
      obtain ⟨root, powers, hload, hlut, hroot⟩ := load_generatorRootExp (p := p) (c := c) (g := g) hi
      have heval := polynomialEvalLut_eq hlut hne (fun j hj _ => by omega) (by decide)
      rw [hroot] at heval
      obtain ⟨result, hstore, hresult⟩ := syndromes.store_getD (i := i)
        ((ofTerms p msgpoly).eval (generatorRoot p c g i)).byte 0 hi
      refine ⟨_, by rw [hload, ok_bind, heval, ok_bind, hstore, ok_bind, pure_eq_ok], ?_, ?_⟩
      · simp only
        split
        · next hne =>
            refine iff_of_false Bool.false_ne_true fun hzero => hne ?_
            rw [hzero i (Nat.lt_succ_self i)]
            rfl
        · next hzero =>
            rw [not_not, byte_eq_zero] at hzero
            rw [hall]
            constructor
            · intro hbefore k hk
              rcases Nat.lt_succ_iff_lt_or_eq.mp hk with hk | rfl
              · exact hbefore k hk
              · exact hzero
            · intro hzero k hk
              exact hzero k (Nat.lt_succ_of_lt hk)
      · intro k hk
        simp only [hresult]
        rcases Nat.lt_succ_iff_lt_or_eq.mp hk with hk | rfl
        · rw [if_neg (by omega)]
          exact hvalues k hk
        · rw [if_pos rfl])
    (true, Block.fill n 0)
    ⟨iff_of_true rfl fun k hk => absurd hk (Nat.not_lt_zero k),
      fun k hk => absurd hk (Nat.not_lt_zero k)⟩
  refine ⟨allZero, syndromes, fun stale => ?_, hvalues, hall⟩
  rw [reedSolomonFindSyndromes, Block.memset_all, ok_bind]
  exact hrun

/-! ## Roots -/

variable (p) in
/-- The elements at which a polynomial vanishes, in the order of the search. -/
noncomputable def searchRoots (P : (FieldElement p)[X]) (count : ℕ) : List Byte :=
  open Classical in
  ((List.range count).filter fun i => P.eval ⟨BitVec.ofNat 8 i⟩ = 0).map (BitVec.ofNat 8)

theorem searchRoots_succ (P : (FieldElement p)[X]) (count : ℕ) :
    (P.eval ⟨BitVec.ofNat 8 count⟩ = 0 ∧
      searchRoots p P (count + 1) = searchRoots p P count ++ [BitVec.ofNat 8 count]) ∨
    (P.eval ⟨BitVec.ofNat 8 count⟩ ≠ 0 ∧ searchRoots p P (count + 1) = searchRoots p P count) := by
  classical
  by_cases hroot : P.eval (⟨BitVec.ofNat 8 count⟩ : FieldElement p) = 0
  · refine .inl ⟨hroot, ?_⟩
    simp [searchRoots, List.range_succ, List.filter_append, hroot]
  · refine .inr ⟨hroot, ?_⟩
    simp [searchRoots, List.range_succ, List.filter_append, hroot]

theorem eval_of_mem_searchRoots {P : (FieldElement p)[X]} {count : ℕ} {element : Byte}
    (h : element ∈ searchRoots p P count) : P.eval ⟨element⟩ = 0 := by
  classical
  simp only [searchRoots, List.mem_map, List.mem_filter, decide_eq_true_iff] at h
  obtain ⟨i, ⟨-, hroot⟩, rfl⟩ := h
  exact hroot

theorem mem_searchRoots {P : (FieldElement p)[X]} {element : Byte} :
    element ∈ searchRoots p P 256 ↔ P.eval ⟨element⟩ = 0 := by
  classical
  refine ⟨eval_of_mem_searchRoots, fun hroot => ?_⟩
  simp only [searchRoots, List.mem_map, List.mem_filter, List.mem_range, decide_eq_true_iff]
  refine ⟨element.toNat, ⟨element.isLt, ?_⟩, ?_⟩
  · rw [BitVec.ofNat_toNat, BitVec.setWidth_eq]
    exact hroot
  · rw [BitVec.ofNat_toNat, BitVec.setWidth_eq]

theorem nodup_searchRoots (P : (FieldElement p)[X]) {count : ℕ} (hcount : count ≤ 256) :
    (searchRoots p P count).Nodup := by
  classical
  refine List.Nodup.map_on ?_ (List.nodup_range.filter _)
  intro i hi j hj heq
  have hi := List.mem_range.mp (List.mem_filter.mp hi).1
  have hj := List.mem_range.mp (List.mem_filter.mp hj).1
  have hnat := congrArg BitVec.toNat heq
  rwa [BitVec.toNat_ofNat, BitVec.toNat_ofNat, Nat.mod_eq_of_lt (by omega),
    Nat.mod_eq_of_lt (by omega)] at hnat

/-- There are no more roots than the degree allows. -/
theorem length_searchRoots_le {P : (FieldElement p)[X]} (hP : P ≠ 0) {count : ℕ}
    (hcount : count ≤ 256) : (searchRoots p P count).length ≤ P.natDegree := by
  classical
  have hinj : Function.Injective (FieldElement.mk (p := p)) := fun _ _ h => congrArg byte h
  have hcard : ((searchRoots p P count).toFinset.image (FieldElement.mk (p := p))).card =
      (searchRoots p P count).length := by
    rw [card_image_of_injective _ hinj, List.toFinset_card_of_nodup (nodup_searchRoots P hcount)]
  rw [← hcard]
  refine card_le_degree_of_subset_roots fun x hx => ?_
  obtain ⟨element, helement, rfl⟩ := mem_image.mp (mem_val.mp hx)
  exact (mem_roots hP).mpr (eval_of_mem_searchRoots (List.mem_toFinset.mp helement))

/-- The entries of an array whose front is known. -/
theorem load_front {m : ℕ} {block : Block Byte m} {front : List Byte}
    (h : block.cells.take front.length = front) {i : ℕ} (hi : i < front.length) :
    load block.cells i = .ok front[i] := by
  have hentry : (block.cells.take front.length)[i]? = block.cells[i]? :=
    List.getElem?_take_of_lt hi
  rw [load_eq_ok, ← hentry, h, List.getElem?_eq_getElem hi]

theorem take_overwrite {buffer values : List Byte} {pos : ℕ} (h : pos ≤ buffer.length) :
    (overwrite buffer pos values).take pos = buffer.take pos := by
  rw [overwrite, List.take_left' (by rw [List.length_take]; omega)]

/-- The search writes the roots behind the entries that it skips. -/
theorem factorize_spec {m : ℕ} (hn : 0 < n) {terms : List Byte} (hne : terms ≠ [])
    (hterms : ∀ j < terms.length, terms.getD j 0 ≠ 0 → j < n)
    (hconstant : (ofTerms p terms).coeff 0 = 1) {numSkip : ℕ} (hm : numSkip + terms.length ≤ m + 1)
    (stale : Block Byte m) :
    ∃ roots : Block Byte m, reedSolomonFactorizeErrorLocator (fieldCreate p) numSkip
        (terms.map (fieldCreate p).logAt) stale (decodingReedSolomonCreate p c g n).elementExp =
      .ok (decide ((searchRoots p (ofTerms p terms) 256).length = terms.length - 1), roots) ∧
      roots.cells.take (numSkip + (searchRoots p (ofTerms p terms) 256).length) =
        stale.cells.take numSkip ++ searchRoots p (ofTerms p terms) 256 := by
  obtain ⟨P, hP⟩ : ∃ P, ofTerms p terms = P := ⟨_, rfl⟩
  rw [hP] at hconstant ⊢
  have hP₀ : P ≠ 0 := by
    rintro rfl
    rw [coeff_zero] at hconstant
    exact zero_ne_one hconstant
  have hlength : 0 < terms.length := List.length_pos_iff.mpr hne
  have hdegree : P.natDegree ≤ terms.length - 1 := by
    rw [← hP]
    exact natDegree_ofTerms_le (by omega)
  obtain ⟨cleared, hclear, hclearCells⟩ := @Block.memcpy_of_le _ m stale
    numSkip (terms.length - 1) (List.replicate (terms.length - 1) 0)
    (by rw [List.length_replicate]) (by omega)
  have hfront : (stale.cells.take numSkip).length = numSkip := by
    rw [List.length_take, stale.length_cells]
    omega
  obtain ⟨⟨root, roots⟩, hrun, hcount, hroots⟩ := @Loop.foldlM_range_stages _
    (fun (s : ℕ × Block Byte m) i => do
      if (← polynomialEvalLogLut (fieldCreate p) (terms.map (fieldCreate p).logAt)
          (← load (decodingReedSolomonCreate p c g n).elementExp i)) = 0 then
        let roots ← s.2.store s.1 (BitVec.ofNat 8 i)
        return (s.1 + 1, roots)
      else return s)
    (fun i (s : ℕ × Block Byte m) => s.1 = numSkip + (searchRoots p P i).length ∧
      s.2.cells.take s.1 = stale.cells.take numSkip ++ searchRoots p P i)
    256
    (by
      rintro i ⟨root, roots⟩ hi ⟨hcount, hroots⟩
      simp only at hcount hroots
      obtain ⟨powers, hload, hlut⟩ := load_elementExp (p := p) (c := c) (g := g) hn (BitVec.ofNat 8 i)
      have hindex : (BitVec.ofNat 8 i).toNat = i := by
        rw [BitVec.toNat_ofNat, Nat.mod_eq_of_lt (by omega)]
      rw [hindex] at hload
      have heval := polynomialEvalLogLut_eq hlut hne (fun _ => hterms) hn
      rw [hP] at heval
      rw [hload, ok_bind, heval, ok_bind]
      have hbound := length_searchRoots_le hP₀ (by omega : i + 1 ≤ 256)
      rcases searchRoots_succ P i with ⟨hroot, hnext⟩ | ⟨hroot, hnext⟩
      · rw [hnext, List.length_append, List.length_singleton] at hbound
        rw [if_pos (byte_eq_zero.mpr hroot), Block.store_of_lt _ _ (by omega), ok_bind]
        refine ⟨_, rfl, ?_, ?_⟩
        · simp only
          rw [hnext, List.length_append, List.length_singleton, hcount, Nat.add_assoc]
        · simp only
          rw [take_succ_set _ _ (by rw [roots.length_cells]; omega), hroots, hnext,
            List.append_assoc]
      · rw [if_neg (mt byte_eq_zero.mp hroot)]
        refine ⟨_, rfl, ?_, ?_⟩
        · rw [hnext]
          exact hcount
        · rw [hnext]
          exact hroots)
    (numSkip, cleared)
    (by
      refine ⟨rfl, ?_⟩
      simp only
      rw [hclearCells, take_overwrite (by rw [stale.length_cells]; omega)]
      exact (List.append_nil _).symm)
  simp only at hcount hroots
  refine ⟨roots, ?_, by rw [← hcount]; exact hroots⟩
  rw [reedSolomonFactorizeErrorLocator, List.length_map]
  simp only [hclear, ok_bind, hrun]
  rw [hcount, Nat.add_comm (terms.length - 1)]
  simp only [Nat.add_left_cancel_iff]
  rfl

/-- The powers in the tables do not reach a term of the order `n`. -/
theorem factorize_outOfBounds {m : ℕ} (hn : 0 < n) {terms : List Byte}
    (hlength : terms.length = n + 1) (hlast : terms.getD n 0 ≠ 0)
    (hconstant : (ofTerms p terms).coeff 0 = 1) (hm : n ≤ m) (stale : Block Byte m) :
    reedSolomonFactorizeErrorLocator (fieldCreate p) 0 (terms.map (fieldCreate p).logAt) stale
      (decodingReedSolomonCreate p c g n).elementExp = .error .outOfBounds := by
  have hne : terms ≠ [] := by
    rw [← List.length_pos_iff]
    omega
  obtain ⟨cleared, hclear, -⟩ := @Block.memcpy_of_le _ m stale 0 (terms.length - 1)
    (List.replicate (terms.length - 1) 0) (by rw [List.length_replicate]) (by omega)
  obtain ⟨zeros, hload, hlut⟩ := load_elementExp (p := p) (c := c) (g := g) hn 0
  obtain ⟨ones, hload', hlut'⟩ := load_elementExp (p := p) (c := c) (g := g) hn 1
  have heval := polynomialEvalLogLut_eq hlut hne (fun hval => absurd rfl hval) hn
  have hfault := polynomialEvalLogLut_outOfBounds hlut' (by decide) hn hlength hlast
  have hzero : ((ofTerms p terms).eval ⟨0⟩).byte ≠ 0 := by
    rw [← zero_def, ← coeff_zero_eq_eval_zero, hconstant]
    exact zero_ne_one_byte.symm
  have hrange : List.range 256 = 0 :: 1 :: List.range' 2 254 := by
    rw [List.range_eq_range', List.range'_succ, List.range'_succ]
  rw [reedSolomonFactorizeErrorLocator, List.length_map]
  change load _ 0 = .ok zeros at hload
  change load _ 1 = .ok ones at hload'
  simp only [hclear, ok_bind, hrange, List.foldlM_cons, hload, heval, if_neg hzero, pure_eq_ok,
    hload', hfault, error_bind]

/-! ## Locations -/

/-- Every element but 0 stands for a coefficient. -/
theorem exists_locationPoint_eq (h : ValidCode g n) {a : FieldElement p} (ha : a ≠ 0) :
    ∃ l < 255, locationPoint p g l = a := by
  obtain ⟨i, -, hi⟩ := exists_alphaPow_eq (p := p) (mt byte_eq_zero.mp ha)
  obtain ⟨inverse, -, hinverse⟩ :=
    Nat.exists_mul_mod_eq_one_of_coprime h.coprime.symm (by decide : 1 < 255)
  have hunit : g * inverse ≡ 1 [MOD 255] := hinverse
  have hmod : g * (inverse * i % 255) ≡ i [MOD 255] :=
    calc g * (inverse * i % 255) ≡ g * (inverse * i) [MOD 255] := (Nat.mod_modEq _ _).mul_left g
      _ = g * inverse * i := (mul_assoc _ _ _).symm
      _ ≡ 1 * i [MOD 255] := hunit.mul_right i
      _ = i := one_mul i
  refine ⟨inverse * i % 255, Nat.mod_lt _ (by decide), ?_⟩
  rw [locationPoint, ← alpha_pow_mod, hmod, alpha_pow_mod, alpha_pow, hi]

variable (p) in
/-- The coefficient that an error locator with the given root points to. -/
noncomputable def errorLocationOf (g : ℕ) (root : Byte) : ℕ :=
  open Classical in
  if h : ∃ l < 255, locationPoint p g l = (⟨root⟩ : FieldElement p)⁻¹ then h.choose else 0

theorem errorLocationOf_spec (h : ValidCode g n) {root : Byte} (hroot : root ≠ 0) :
    errorLocationOf p g root < 255 ∧
      locationPoint p g (errorLocationOf p g root) = (⟨root⟩ : FieldElement p)⁻¹ := by
  have hexists := exists_locationPoint_eq h (inv_ne_zero (mt (mk_eq_zero (p := p)).mp hroot))
  rw [errorLocationOf, dif_pos hexists]
  exact hexists.choose_spec

/-- The search for the location of one error. The byte 0 counts as the power 0, so that the
location 0 is found there. -/
theorem find_location (h : ValidCode g n) {root : Byte} (hroot : root ≠ 0) :
    ∃ j, ((List.range 256).find? fun j => (fieldCreate p).pow (BitVec.ofNat 8 j) g =
        (fieldCreate p).div 1 root) = some j ∧
      (fieldCreate p).logAt (BitVec.ofNat 8 j) = BitVec.ofNat 8 (errorLocationOf p g root) := by
  obtain ⟨hlt, hpoint⟩ := errorLocationOf_spec (p := p) h hroot
  generalize errorLocationOf p g root = l at hlt hpoint
  have hquotient : (⟨(fieldCreate p).div 1 root⟩ : FieldElement p) = locationPoint p g l := by
    rw [hpoint, mk_div, ← one_def, one_div]
  rcases Nat.eq_zero_or_pos l with rfl | hpos
  · refine ⟨0, ?_, logAt_zero⟩
    rw [List.find?_range_eq_some]
    refine ⟨?_, List.mem_range.mpr (by decide), fun j hj => absurd hj (Nat.not_lt_zero j)⟩
    rw [locationPoint, Nat.mul_zero, pow_zero, one_def] at hquotient
    have hbyte : (fieldCreate p).div 1 root = 1 := congrArg byte hquotient
    rw [decide_eq_true_iff, hbyte]
    exact pow_zero_elem g
  · have hne : alphaPow p l ≠ 0 := alphaPow_ne_zero l
    have hbyte : BitVec.ofNat 8 (alphaPow p l).toNat = alphaPow p l := by
      rw [BitVec.ofNat_toNat, BitVec.setWidth_eq]
    refine ⟨(alphaPow p l).toNat, ?_, ?_⟩
    · rw [List.find?_range_eq_some]
      refine ⟨?_, List.mem_range.mpr (alphaPow p l).isLt, fun j hj => ?_⟩
      · have hpow : (⟨(fieldCreate p).pow (alphaPow p l) g⟩ : FieldElement p) =
            ⟨(fieldCreate p).div 1 root⟩ := by
          rw [mk_pow hne, hquotient, zpow_natCast, ← alpha_pow, ← pow_mul, Nat.mul_comm,
            locationPoint]
        rw [decide_eq_true_iff, hbyte]
        exact congrArg byte hpow
      · rw [Bool.not_eq_true', decide_eq_false_iff_not]
        intro heq
        have helement : (⟨(fieldCreate p).pow (BitVec.ofNat 8 j) g⟩ : FieldElement p) =
            locationPoint p g l := by rw [heq, hquotient]
        by_cases hzero : BitVec.ofNat 8 j = 0
        · -- The byte 0 is found for the location 0 only.
          rw [hzero, pow_zero_elem, ← one_def] at helement
          have hfirst : locationPoint p g 0 = locationPoint p g l := by
            rw [← helement, locationPoint, Nat.mul_zero, pow_zero]
          have := locationPoint_inj h (by decide) hlt hfirst
          omega
        · obtain ⟨i, -, hi⟩ := exists_alphaPow_eq (p := p) hzero
          rw [mk_pow hzero, ← hi, ← alpha_pow, zpow_natCast, ← pow_mul, Nat.mul_comm] at helement
          have hsame : alpha p ^ i = alpha p ^ l := by
            have hmod := alpha_pow_gap_inj h helement
            rw [← alpha_pow_mod, hmod, alpha_pow_mod]
          rw [alpha_pow, alpha_pow, hi] at hsame
          have hindex := congrArg (fun a : FieldElement p => a.byte.toNat) hsame
          have hsmall := (alphaPow p l).isLt
          simp only [BitVec.toNat_ofNat] at hindex
          omega
    · apply BitVec.eq_of_toNat_eq
      rw [hbyte, logAt_alphaPow ⟨hpos, by omega⟩, BitVec.toNat_ofNat, Nat.mod_eq_of_lt (by omega)]

theorem take_overwrite_zero (buffer values : List Byte) :
    (overwrite buffer 0 values).take values.length = values := by
  rw [overwrite, List.take_zero, List.nil_append, List.take_left' rfl]

/-- The locations of the errors, one for each root. -/
theorem findErrorLocations_spec (h : ValidCode g n) {R : List Byte} (hR : ∀ root ∈ R, root ≠ 0)
    (hlength : R.length ≤ n) {k : ℕ} {roots : Block Byte k}
    (hroots : roots.cells.take R.length = R) (stale : Block Byte n) :
    ∃ locations, reedSolomonFindErrorLocations (fieldCreate p) g roots stale R.length =
        .ok locations ∧
      locations.cells.take R.length = R.map fun root => BitVec.ofNat 8 (errorLocationOf p g root) := by
  obtain ⟨values, hvalues⟩ : ∃ values, values = R.map fun root =>
      BitVec.ofNat 8 (errorLocationOf p g root) := ⟨_, rfl⟩
  have hsize : values.length = R.length := by rw [hvalues, List.length_map]
  obtain ⟨locations, hrun, hcells⟩ : ∃ locations,
      reedSolomonFindErrorLocations (fieldCreate p) g roots stale values.length = .ok locations ∧
        locations.cells = overwrite stale.cells 0 values := by
    unfold reedSolomonFindErrorLocations
    refine foldlM_store_shifted values 0 _ stale ?_ (by omega)
    intro block j hj
    have hj' : j < R.length := by omega
    obtain ⟨index, hfind, hlog⟩ := find_location (p := p) h (hR _ (List.getElem_mem hj'))
    simp only [load_front hroots hj', ok_bind, if_neg (hR _ (List.getElem_mem hj')), hfind, hlog,
      hvalues, List.getElem_map, Nat.add_zero]
  rw [hsize] at hrun
  refine ⟨locations, hrun, ?_⟩
  rw [hcells, ← hvalues, ← hsize, take_overwrite_zero]

end ObcGsInterface
