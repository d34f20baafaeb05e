import ObcGsInterface.Library.Loop
import ObcGsInterface.Model.Crc

/-! # The checksum of images

`crc32` is a reflected register whose polynomial has its highest bit set. Taking the
complement before and after lets calls be chained. -/

namespace ObcGsInterface

open CArray ShiftRegister

/-! ## The register -/

/-- The polynomial of `crc32`, reflected. -/
def crc32Poly : BitVec 32 := 0xedb88320

theorem crc32Byte_eq : crc32Byte = reflectedByte crc32Poly := by
  have hshift : crc32Shift = reflectedStep crc32Poly := by
    funext crc
    have hmask : crc &&& 1 = (BitVec.ofBool (crc.getLsbD 0)).setWidth 32 :=
      BitVec.and_one_eq_setWidth_ofBool_getLsbD
    have hlow : crc &&& 1 ≠ 0 ↔ crc.getLsbD 0 = true := by
      rw [hmask]
      cases crc.getLsbD 0 <;> simp
    simp only [crc32Shift, reflectedStep, hlow]
    rfl
  funext crc byte
  rw [crc32Byte, reflectedByte, hshift]

theorem crc32_eq (crc : BitVec 32) (data : List Byte) :
    crc32 crc data data.length = .ok (~~~data.foldl (reflectedByte crc32Poly) (~~~crc)) := by
  rw [crc32, Loop.foldlM_load crc32Byte (Nat.le_refl _), ok_bind, pure_eq_ok, List.take_length,
    crc32Byte_eq]

/-! ## Chunks and damaged words -/

/-- Chained calls on the chunks of a string leave the checksum of the whole string. -/
theorem foldlM_crc32 (crc : BitVec 32) (chunks : List (List Byte)) :
    chunks.foldlM (fun crc chunk => crc32 crc chunk chunk.length) crc =
      .ok (~~~chunks.flatten.foldl (reflectedByte crc32Poly) (~~~crc)) := by
  induction chunks generalizing crc with
  | nil => simp
  | cons chunk chunks ih =>
      rw [List.foldlM_cons, crc32_eq, ok_bind, ih, BitVec.not_not, List.flatten_cons,
        List.foldl_append]

/-- The strings have the same bytes before place `k` and from place `k + n` on. -/
def AgreeOutside (k n : ℕ) (xs ys : List Byte) : Prop :=
  ∀ i, i < k ∨ k + n ≤ i → xs[i]? = ys[i]?

theorem AgreeOutside.split {k n : ℕ} {xs ys : List Byte} (h : AgreeOutside k n xs ys)
    (hlength : xs.length = ys.length) :
    ∃ front back word word' : List Byte, xs = front ++ (word ++ back) ∧
      ys = front ++ (word' ++ back) ∧ word.length = word'.length ∧ word.length ≤ n := by
  have hfront : xs.take k = ys.take k := by
    apply List.ext_getElem?
    intro i
    rw [List.getElem?_take, List.getElem?_take]
    split
    · exact h i (Or.inl ‹_›)
    · rfl
  have hback : (xs.drop k).drop n = (ys.drop k).drop n := by
    apply List.ext_getElem?
    intro i
    rw [List.drop_drop, List.drop_drop, List.getElem?_drop, List.getElem?_drop]
    exact h _ (Or.inr (Nat.le_add_right _ _))
  refine ⟨xs.take k, (xs.drop k).drop n, (xs.drop k).take n, (ys.drop k).take n, ?_, ?_, ?_, ?_⟩
  · rw [List.take_append_drop, List.take_append_drop]
  · rw [hfront, hback, List.take_append_drop, List.take_append_drop]
  · simp [hlength]
  · exact List.length_take_le _ _

/-- Chunks can be fed one after another, and damage to a stretch of four bytes shows. -/
theorem crc32_chunks_and_damage (crc : BitVec 32) :
    (∀ chunks : List (List Byte), ∃ value,
      chunks.foldlM (fun crc chunk => crc32 crc chunk chunk.length) crc = .ok value ∧
        crc32 crc chunks.flatten chunks.flatten.length = .ok value) ∧
    ∀ xs ys : List Byte, xs.length = ys.length → xs ≠ ys → (∃ k, AgreeOutside k 4 xs ys) →
      ∃ c c', crc32 crc xs xs.length = .ok c ∧ crc32 crc ys ys.length = .ok c' ∧ c ≠ c' := by
  refine ⟨fun chunks => ⟨_, foldlM_crc32 crc chunks, crc32_eq crc _⟩, ?_⟩
  intro xs ys hlength hne hagree
  rcases hagree with ⟨k, hagree⟩
  refine ⟨_, _, crc32_eq crc xs, crc32_eq crc ys, ?_⟩
  rcases hagree.split hlength with ⟨front, back, word, word', rfl, rfl, hwords, hroom⟩
  have hpoly : crc32Poly.msb = true := by decide
  have hdiffer : word ≠ word' := by
    rintro rfl
    exact hne rfl
  have hregister := foldl_reflectedByte_ne crc32Poly hpoly (~~~crc) front back hwords (by omega)
    hdiffer
  exact fun h => hregister (BitVec.not_inj.mp h)

theorem crc32_chunks_and_damage_two :
    ∃ c c', crc32 0 [1, 2] 2 = .ok c ∧ crc32 0 [1, 3] 2 = .ok c' ∧ c ≠ c' := by
  have hagree : AgreeOutside 0 4 [1, 2] [1, 3] := by
    intro i hi
    rw [List.getElem?_eq_none (by simp; omega), List.getElem?_eq_none (by simp; omega)]
  exact (crc32_chunks_and_damage 0).2 [1, 2] [1, 3] rfl (by decide) ⟨0, hagree⟩

end ObcGsInterface
