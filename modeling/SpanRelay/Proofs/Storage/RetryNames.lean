import SpanRelay.Storage.RetryFile

/-! Names of retry files. Every timestamp is read back from the name that is made of it. -/
namespace SpanRelay.RetryFile

theorem strip?_append (front rest : List Char) : strip? front (front ++ rest) = some rest := by
  simp [strip?]

theorem stripEnd?_append (front back : List Char) :
    stripEnd? back (front ++ back) = some front := by
  simp [stripEnd?, strip?_append]

theorem isDigit_of_mem_paddedDigits {n : Nat} {c : Char} (h : c ∈ paddedDigits n) :
    c.isDigit = true := by
  rcases List.mem_append.mp h with hz | hd
  · rw [List.eq_of_mem_replicate hz]
    rfl
  · exact Nat.isDigit_of_mem_toDigits (by decide) (by decide) hd

theorem paddedDigits_ne_nil (n : Nat) : paddedDigits n ≠ [] := by
  simp [paddedDigits, Nat.toDigits_ne_nil]

/-- Leading zeros do not change the number. -/
theorem ofDigitChars_paddedDigits (n : Nat) : Nat.ofDigitChars 10 (paddedDigits n) 0 = n := by
  simp [paddedDigits, Nat.ofDigitChars_append]

theorem decimal?_paddedDigits (timestamp : UInt64) :
    decimal? (paddedDigits timestamp.toNat) = some timestamp := by
  have hall : (paddedDigits timestamp.toNat).all Char.isDigit = true :=
    List.all_eq_true.mpr fun c hc => isDigit_of_mem_paddedDigits hc
  have hne : (paddedDigits timestamp.toNat).isEmpty = false := by
    simpa using paddedDigits_ne_nil timestamp.toNat
  have hvalue : (paddedDigits timestamp.toNat).foldl
      (fun n c => n * 10 + (c.toNat - '0'.toNat)) 0 = timestamp.toNat := by
    calc
      _ = Nat.ofDigitChars 10 (paddedDigits timestamp.toNat) 0 := by
        simp only [Nat.ofDigitChars_eq_foldl, Nat.mul_comm]
      _ = timestamp.toNat := ofDigitChars_paddedDigits _
  unfold decimal?
  simp only [hall, hne, hvalue, Bool.not_true, Bool.or_self, Bool.false_eq_true, if_false,
    if_pos timestamp.toNat_lt, UInt64.ofNat_toNat]

theorem timestamp?_name (timestamp : UInt64) : timestamp? (name timestamp) = some timestamp := by
  unfold timestamp? name
  rw [String.toList_ofList, List.append_assoc, strip?_append, Option.bind_some, stripEnd?_append]
  split
  next digits he =>
    have hplus : '+' ∈ paddedDigits timestamp.toNat := by
      rw [Option.some.inj he]
      exact List.mem_cons_self
    exact absurd (isDigit_of_mem_paddedDigits hplus) (by decide)
  next digits _ he =>
    rw [← Option.some.inj he]
    exact decimal?_paddedDigits timestamp
  next he => contradiction

theorem name_injective : Function.Injective name := by
  intro s t h
  have hs := timestamp?_name s
  rw [h, timestamp?_name] at hs
  exact (Option.some.inj hs).symm

end SpanRelay.RetryFile
