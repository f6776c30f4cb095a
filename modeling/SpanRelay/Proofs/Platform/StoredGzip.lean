import Mathlib.Algebra.Order.Ring.Nat
import SpanRelay.Platform.Standard

/-! What is packed in stored blocks is unpacked as it was, however many blocks it takes. -/
namespace SpanRelay.StoredGzip

@[simp] theorem length_littleEndian (width n : Nat) : (littleEndian width n).length = width := by
  induction width generalizing n with
  | zero => rfl
  | succ width ih => simp [littleEndian, ih]

theorem ofLittleEndian_littleEndian {width n : Nat} (h : n < 256 ^ width) :
    ofLittleEndian (littleEndian width n) = n := by
  induction width generalizing n with
  | zero =>
    have hzero : n = 0 := by simpa using h
    simp [hzero, littleEndian, ofLittleEndian]
  | succ width ih =>
    have hdiv : n / 256 < 256 ^ width := by
      rw [Nat.div_lt_iff_lt_mul (by decide), ← Nat.pow_succ]
      exact h
    have hrest := ih hdiv
    simp only [ofLittleEndian, littleEndian, List.foldr_cons, UInt8.toNat_ofNat'] at hrest ⊢
    rw [hrest]
    omega

/-- A stored block is read whole; what follows the last one is left. -/
theorem unstore_storedBlock (last : Bool) {data : Bytes} (h : data.length ≤ blockSize) (fuel : Nat)
    (rest : Bytes) :
    unstore (fuel + 1) (storedBlock last data ++ rest) =
      if last then some (data, rest)
      else (unstore fuel rest).map fun r => (data ++ r.1, r.2) := by
  have hsize : data.length ≤ 65535 := h
  have hlength := ofLittleEndian_littleEndian (by omega : data.length < 256 ^ 2)
  have hcheck := ofLittleEndian_littleEndian (by omega : 65535 - data.length < 256 ^ 2)
  simp only [littleEndian] at hlength hcheck
  unfold storedBlock
  simp only [littleEndian, List.cons_append, List.nil_append]
  have hfits : ¬ (data ++ rest).length < data.length := by
    rw [List.length_append]
    omega
  rw [unstore]
  cases last <;> simp only [hlength, hcheck, Nat.sub_add_cancel hsize, hfits] <;> simp

theorem lt_length_storedBlocks (full : Nat) (data : Bytes) :
    full < (storedBlocks full data).length := by
  induction full generalizing data with
  | zero => simp [storedBlocks, storedBlock]
  | succ full ih =>
    have hrest := ih (data.drop blockSize)
    simp [storedBlocks, storedBlock]
    omega

theorem unstore_storedBlocks (full : Nat) {data : Bytes} (h : data.length ≤ (full + 1) * blockSize)
    {fuel : Nat} (hfuel : full < fuel) (after : Bytes) :
    unstore fuel (storedBlocks full data ++ after) = some (data, after) := by
  induction full generalizing data fuel with
  | zero =>
    obtain ⟨fuel, rfl⟩ := Nat.exists_eq_add_of_lt hfuel
    have hone : data.length ≤ blockSize := by omega
    rw [storedBlocks, Nat.zero_add, unstore_storedBlock true hone, if_pos rfl]
  | succ full ih =>
    obtain ⟨fuel, rfl⟩ := Nat.exists_eq_succ_of_ne_zero (Nat.ne_of_gt (Nat.zero_lt_of_lt hfuel))
    have hfront : (data.take blockSize).length ≤ blockSize := List.length_take_le _ _
    have hback : (data.drop blockSize).length ≤ (full + 1) * blockSize := by
      rw [List.length_drop, Nat.sub_le_iff_le_add, ← Nat.succ_mul]
      exact h
    rw [storedBlocks, List.append_assoc, Nat.succ_eq_add_one, unstore_storedBlock false hfront,
      ih hback (by omega)]
    simp

/-- Whatever is packed is unpacked as it was. -/
theorem unpack?_pack (data : Bytes) : unpack? (pack data) = some data := by
  obtain ⟨full, hfull⟩ : ∃ full, (data.length - 1) / blockSize = full := ⟨_, rfl⟩
  have hsize : data.length ≤ (full + 1) * blockSize := by
    have hdef : blockSize = 65535 := rfl
    rw [hdef] at hfull ⊢
    omega
  have hhead : (pack data).take 10 = header := by
    rw [pack, List.append_assoc]
    rfl
  have htail : (pack data).drop 10 = storedBlocks full data ++ trailer data := by
    rw [pack, List.append_assoc, hfull]
    rfl
  have hfuel : full < (pack data).length := by
    have hblocks := lt_length_storedBlocks full data
    rw [pack, hfull, List.length_append, List.length_append]
    omega
  simp only [unpack?, hhead, htail, if_true, unstore_storedBlocks full hsize hfuel]

end SpanRelay.StoredGzip

namespace SpanRelay

theorem Codec.unpackedBy_standard : Codec.standard.UnpackedBy StoredGzip.unpack? :=
  StoredGzip.unpack?_pack

end SpanRelay
