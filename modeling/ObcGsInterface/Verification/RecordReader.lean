import ObcGsInterface.Library.RecordStream
import ObcGsInterface.Verification.DataPack

/-! # Readers of records

`unpack_command` and `unpack_telem` run the same loop over different C functions: as long as
the next byte is not zero, a window of 16 bytes goes to the C function, which says how many of
them it has read. -/

namespace ObcGsInterface

open CArray RecordStream

/-- A C function that unpacks one record from the start of a buffer, and the parts of what it
returns. -/
structure RecordReader (σ ρ : Type) where
  unpack : List Byte → Except Fault σ
  err : σ → ErrorCode
  offset : σ → Offset
  record : σ → ρ

namespace RecordReader

variable {σ ρ : Type} (reader : RecordReader σ ρ)

/-- The loop of both readers. The test of the loop is on a variable that every round resets,
so that it always holds. -/
def loop (message : String) (packed : List Byte) :
    ℕ → ℕ → List ρ → Except PyError (List ρ × ℕ)
  | 0, _, _ => .error (.fault .nonTermination)
  | fuel + 1, total, records =>
      match packed[total]? with
      | none => .error .indexError
      | some byte =>
          if byte = 0 then .ok (records, total)
          else do
            let buff ← ctypesArray maxCmdMsgSize ((packed.drop total).take maxCmdMsgSize)
            let res ← callC (reader.unpack buff.cells)
            if reader.err res ≠ .success then
              throw (.valueError (message ++ toString (reader.err res).value))
            loop message packed fuel (total + (reader.offset res).toNat)
              (records ++ [reader.record res])

/-- The bytes alone, with nothing behind them, are unpacked to the record, to the last one. -/
def Unpacks (chunk : List Byte) (record : ρ) : Prop :=
  ∃ res, reader.unpack chunk = .ok res ∧ reader.err res = .success ∧
    (reader.offset res).toNat = chunk.length ∧ reader.record res = record

variable {reader}

/-! ## Rounds of the loop -/

/-- The window of the loop: the next bytes, filled up with zeros. -/
theorem window_eq (front rest : List Byte) :
    ∃ buff, ctypesArray maxCmdMsgSize (((front ++ rest).drop front.length).take maxCmdMsgSize) =
        .ok buff ∧
      buff.cells = (rest ++ List.replicate maxCmdMsgSize 0).take maxCmdMsgSize := by
  obtain ⟨buff, hbuff, hcells⟩ := ctypesArray_of_le (n := maxCmdMsgSize)
    (List.length_take_le maxCmdMsgSize ((front ++ rest).drop front.length))
  refine ⟨buff, hbuff, ?_⟩
  rw [hcells, List.drop_left, List.take_append, List.take_replicate, List.length_take]
  congr 2
  omega

theorem loop_nil (message : String) (front : List Byte) (fuel : ℕ) {total : ℕ}
    (htotal : front.length ≤ total) (records : List ρ) :
    reader.loop message front (fuel + 1) total records = .error .indexError := by
  rw [loop, List.getElem?_eq_none htotal]

theorem loop_zero (message : String) (front back : List Byte) (fuel : ℕ) (records : List ρ) :
    reader.loop message (front ++ 0 :: back) (fuel + 1) front.length records =
      .ok (records, front.length) := by
  rw [loop, List.getElem?_append_right (Nat.le_refl _), Nat.sub_self, List.getElem?_cons_zero]
  rfl

/-- The window of a round, for bytes that do not start with a zero. -/
theorem loop_cons (message : String) (front tail : List Byte) {head : Byte} (hhead : head ≠ 0)
    (fuel : ℕ) (records : List ρ) :
    reader.loop message (front ++ head :: tail) (fuel + 1) front.length records =
      (do
        let res ← callC
          (reader.unpack ((head :: tail ++ List.replicate maxCmdMsgSize 0).take maxCmdMsgSize))
        if reader.err res ≠ .success then
          throw (.valueError (message ++ toString (reader.err res).value))
        reader.loop message (front ++ head :: tail) fuel
          (front.length + (reader.offset res).toNat) (records ++ [reader.record res])) := by
  rcases window_eq front (head :: tail) with ⟨buff, hbuff, hcells⟩
  rw [loop, List.getElem?_append_right (Nat.le_refl _), Nat.sub_self, List.getElem?_cons_zero]
  simp only [if_neg hhead, hbuff, ok_bind, hcells]

/-- A round that unpacks a record. The bytes of the record may reach into the zeros that the
window is filled up with. -/
theorem loop_record (hwithin : ReadsWithin reader.unpack) (message : String)
    (front tail chunk : List Byte) {head : Byte} (hhead : head ≠ 0) {record : ρ}
    (hchunk : chunk <+: head :: tail ++ List.replicate maxCmdMsgSize 0)
    (hshort : chunk.length ≤ maxCmdMsgSize) (hunpacks : reader.Unpacks chunk record)
    (fuel : ℕ) (records : List ρ) :
    reader.loop message (front ++ head :: tail) (fuel + 1) front.length records =
      reader.loop message (front ++ head :: tail) fuel (front.length + chunk.length)
        (records ++ [record]) := by
  obtain ⟨res, hrun, herr, hoffset, rfl⟩ := hunpacks
  obtain ⟨back, hback⟩ : chunk <+: (head :: tail ++ List.replicate maxCmdMsgSize 0).take
      maxCmdMsgSize := List.prefix_take_iff.mpr ⟨hchunk, hshort⟩
  have hwindow := hwithin chunk back res hrun
  rw [hback] at hwindow
  rw [loop_cons message front tail hhead, hwindow]
  simp only [callC_ok, ok_bind, herr, hoffset, ne_eq, not_true_eq_false, if_false]

/-! ## Runs over whole records -/

/-- An item travels as an image that does not start with a zero, fits into the window, and is
unpacked to the same again. -/
structure Recovers (reader : RecordReader σ ρ) {ι : Type} (image : ι → List Byte)
    (same : ρ → ι → Prop) (item : ι) : Prop where
  head_ne : ∃ head tail, image item = head :: tail ∧ head ≠ 0
  short : (image item).length ≤ maxCmdMsgSize
  unpacks : ∃ record, reader.Unpacks (image item) record ∧ same record item

/-- The loop returns the items whose images are followed by a zero byte. -/
theorem loop_images (hwithin : ReadsWithin reader.unpack) (message : String) {ι : Type}
    {image : ι → List Byte} {same : ρ → ι → Prop} (items : List ι)
    (h : ∀ item ∈ items, reader.Recovers image same item) (front back : List Byte) (fuel : ℕ)
    (hfuel : items.length < fuel) (records : List ρ) :
    ∃ unpacked,
      reader.loop message (front ++ (items.flatMap image ++ 0 :: back)) fuel front.length records =
        .ok (records ++ unpacked, front.length + (items.flatMap image).length) ∧
      List.Forall₂ same unpacked items := by
  induction items generalizing front fuel records with
  | nil =>
      rcases Nat.exists_eq_succ_of_ne_zero (Nat.ne_of_gt hfuel) with ⟨fuel, rfl⟩
      refine ⟨[], ?_, .nil⟩
      simpa using loop_zero message front back fuel records
  | cons item items ih =>
      rcases Nat.exists_eq_succ_of_ne_zero (Nat.ne_of_gt (Nat.zero_lt_of_lt hfuel)) with ⟨fuel, rfl⟩
      rcases h item (by simp) with ⟨⟨head, tail, himage, hhead⟩, hshort, record, hunpacks, hsame⟩
      obtain ⟨unpacked, hloop, hrest⟩ := ih (fun i hi => h i (List.mem_cons_of_mem item hi))
        (front ++ image item) fuel (by simpa using hfuel) (records ++ [record])
      refine ⟨record :: unpacked, ?_, .cons hsame hrest⟩
      have hround := loop_record hwithin message front (tail ++ (items.flatMap image ++ 0 :: back))
        (image item) hhead (by rw [himage]; simp) hshort hunpacks fuel records
      rw [List.flatMap_cons, List.append_assoc]
      rw [← List.cons_append, ← himage] at hround
      rw [hround]
      simpa [Nat.add_assoc] using hloop

end RecordReader

theorem length_le_length_flatMap {ι : Type} {image : ι → List Byte}
    (h : ∀ item, image item ≠ []) (items : List ι) :
    items.length ≤ (items.flatMap image).length := by
  induction items with
  | nil => simp
  | cons item items ih =>
      have hpos := List.length_pos_iff.mpr (h item)
      rw [List.flatMap_cons, List.length_append, List.length_cons]
      omega

end ObcGsInterface
