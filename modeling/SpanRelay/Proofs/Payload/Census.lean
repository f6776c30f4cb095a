import SpanRelay.Proofs.Payload.Headers
import SpanRelay.Proofs.Payload.Lossless
import SpanRelay.Proofs.Platform.StoredGzip

/-!
What the headers of a batch say of it. Length and digest are those of the body as it is sent, and
the sampling header, read back, counts the spans of each probability. Probabilities are grouped as
numbers and then sorted as words; the two orders agree wherever the numbers differ.
-/
namespace SpanRelay

/-! ## Doubles as numbers and as words -/

namespace Binary64

variable {x y z : Binary64}

theorem equal_iff :
    x.equal y = true ↔ x.isNaN = false ∧ y.isNaN = false ∧ x.key = y.key := by
  simp [equal, and_assoc]

theorem equal_comm (x y : Binary64) : x.equal y = y.equal x := by
  unfold equal
  rw [Bool.and_comm (!x.isNaN), decide_eq_decide.mpr eq_comm]

theorem equal_symm (h : x.equal y = true) : y.equal x = true := (equal_comm y x).trans h

theorem equal_trans (hxy : x.equal y = true) (hyz : y.equal z = true) : x.equal z = true := by
  obtain ⟨hx, -, hkey⟩ := equal_iff.mp hxy
  obtain ⟨-, hz, hkey'⟩ := equal_iff.mp hyz
  exact equal_iff.mpr ⟨hx, hz, hkey.trans hkey'⟩

theorem equal_self (h : x.isNaN = false) : x.equal x = true := equal_iff.mpr ⟨h, h, rfl⟩

theorem key_le_of_totalKey_le (h : x.totalKey ≤ y.totalKey) : x.key ≤ y.key := by
  cases hx : x.negative <;> cases hy : y.negative <;> simp [totalKey, key, hx, hy] at h ⊢ <;> omega

theorem lt_of_totalKey_le (h : x.totalKey ≤ y.totalKey) (hne : x.equal y = false)
    (hx : x.isNaN = false) (hy : y.isNaN = false) : x.lt y = true := by
  have hle := key_le_of_totalKey_le h
  have hkey : x.key ≠ y.key := fun heq => by simp [equal_iff.mpr ⟨hx, hy, heq⟩] at hne
  simp only [lt, hx, hy, Bool.not_false, Bool.true_and, decide_eq_true_iff]
  omega

end Binary64

/-! ## Counting -/

namespace Encoder

/-- One entry for each probability that occurs, with the number of times that it does. A NaN is like
no other value, so that each of them has an entry of its own. -/
structure Counts (entries : List (Binary64 × Nat)) (probabilities : List Binary64) : Prop where
  counted : ∀ e ∈ entries, e.1.isNaN = false → e.2 = probabilities.countP e.1.equal
  alone : ∀ e ∈ entries, e.1.isNaN = true → e.2 = 1
  positive : ∀ e ∈ entries, 0 < e.2
  found : ∀ p ∈ probabilities, p.isNaN = false → ∃ e ∈ entries, e.1.equal p = true
  distinct : entries.Pairwise fun a b => a.1.equal b.1 = false
  total : (entries.map Prod.snd).sum = probabilities.length

variable {entries others : List (Binary64 × Nat)} {probabilities : List Binary64} {p : Binary64}

/-- A probability is counted where it is found, and else gets an entry. -/
theorem tally_cases (p : Binary64) (entries : List (Binary64 × Nat)) :
    (∃ q n rest, entries.Perm ((q, n) :: rest) ∧ q.equal p = true ∧
      (tally p entries).Perm ((q, n + 1) :: rest)) ∨
    (∀ e ∈ entries, e.1.equal p = false) ∧ (tally p entries).Perm ((p, 1) :: entries) := by
  induction entries with
  | nil => exact .inr ⟨by simp, .refl _⟩
  | cons e entries ih =>
    obtain ⟨q, n⟩ := e
    unfold tally
    by_cases hq : q.equal p = true
    · rw [if_pos hq]
      exact .inl ⟨q, n, entries, .refl _, hq, .refl _⟩
    · rw [if_neg hq]
      rcases ih with ⟨r, m, rest, hentries, hr, htally⟩ | ⟨hnone, htally⟩
      · refine .inl ⟨r, m, (q, n) :: rest, ?_, hr, ?_⟩
        · exact (hentries.cons _).trans (.swap ..)
        · exact (htally.cons _).trans (.swap ..)
      · refine .inr ⟨List.forall_mem_cons.mpr ⟨Bool.eq_false_iff.mpr hq, hnone⟩, ?_⟩
        exact (htally.cons _).trans (.swap ..)

theorem Counts.perm (h : Counts entries probabilities) (hperm : others.Perm entries) :
    Counts others probabilities where
  counted e he := h.counted e (hperm.mem_iff.mp he)
  alone e he := h.alone e (hperm.mem_iff.mp he)
  positive e he := h.positive e (hperm.mem_iff.mp he)
  found q hq hnan := by
    obtain ⟨e, he, hequal⟩ := h.found q hq hnan
    exact ⟨e, hperm.mem_iff.mpr he, hequal⟩
  distinct := by
    have hsymm : ∀ {a b : Binary64 × Nat}, a.1.equal b.1 = false → b.1.equal a.1 = false := by
      intro a b hab
      exact Bool.eq_false_iff.mpr fun hba => by simp [Binary64.equal_symm hba] at hab
    exact (hperm.pairwise_iff hsymm).mpr h.distinct
  total := (hperm.map Prod.snd).sum_eq.trans h.total

theorem counts_nil : Counts [] [] := by
  constructor <;> simp

theorem countP_concat_of_equal {q : Binary64} (h : q.equal p = true) :
    (probabilities ++ [p]).countP q.equal = probabilities.countP q.equal + 1 := by
  rw [List.countP_append, List.countP_singleton, if_pos h]

theorem countP_concat_of_not_equal {q : Binary64} (h : q.equal p = false) :
    (probabilities ++ [p]).countP q.equal = probabilities.countP q.equal := by
  rw [List.countP_append, List.countP_singleton, if_neg (by simp [h]), Nat.add_zero]

theorem Counts.concat_new (h : Counts entries probabilities)
    (hnone : ∀ e ∈ entries, e.1.equal p = false) :
    Counts ((p, 1) :: entries) (probabilities ++ [p]) where
  counted := by
    refine List.forall_mem_cons.mpr ⟨fun hnan => ?_, fun e he hnan => ?_⟩
    · -- no earlier probability is equal, or the entry that counts it would be
      have hzero : probabilities.countP p.equal = 0 := by
        refine List.countP_eq_zero.mpr fun q hq hequal => ?_
        obtain ⟨e, he, heq⟩ := h.found q hq (Binary64.equal_iff.mp hequal).2.1
        have hboth := Binary64.equal_trans heq (Binary64.equal_symm hequal)
        simp [hnone e he] at hboth
      rw [countP_concat_of_equal (Binary64.equal_self hnan), hzero]
    · rw [countP_concat_of_not_equal (hnone e he), h.counted e he hnan]
  alone := List.forall_mem_cons.mpr ⟨fun _ => rfl, h.alone⟩
  positive := List.forall_mem_cons.mpr ⟨Nat.one_pos, h.positive⟩
  found q hq hnan := by
    rcases List.mem_append.mp hq with hq | hq
    · obtain ⟨e, he, hequal⟩ := h.found q hq hnan
      exact ⟨e, List.mem_cons_of_mem _ he, hequal⟩
    · obtain rfl := List.mem_singleton.mp hq
      exact ⟨(q, 1), List.mem_cons_self, Binary64.equal_self hnan⟩
  distinct := by
    refine List.pairwise_cons.mpr ⟨fun e he => Bool.eq_false_iff.mpr fun heq => ?_, h.distinct⟩
    have hflip := Binary64.equal_symm heq
    simp [hnone e he] at hflip
  total := by simp [h.total, Nat.add_comm]

theorem Counts.concat_found {q : Binary64} {n : Nat} (h : Counts ((q, n) :: entries) probabilities)
    (hequal : q.equal p = true) : Counts ((q, n + 1) :: entries) (probabilities ++ [p]) := by
  have hnan : q.isNaN = false := (Binary64.equal_iff.mp hequal).1
  obtain ⟨hcount, hcounted⟩ := List.forall_mem_cons.mp h.counted
  obtain ⟨-, hpositive⟩ := List.forall_mem_cons.mp h.positive
  obtain ⟨hapart, hdistinct⟩ := List.pairwise_cons.mp h.distinct
  constructor
  case counted =>
    refine List.forall_mem_cons.mpr ⟨fun _ => ?_, fun e he henan => ?_⟩
    · rw [countP_concat_of_equal hequal, ← hcount hnan]
    · have hne : e.1.equal p = false := Bool.eq_false_iff.mpr fun hep => by
        have heq := Binary64.equal_trans hequal (Binary64.equal_symm hep)
        simp [hapart e he] at heq
      rw [countP_concat_of_not_equal hne, hcounted e he henan]
  case alone =>
    refine List.forall_mem_cons.mpr ⟨fun hq => by simp [hnan] at hq, fun e he => ?_⟩
    exact h.alone e (List.mem_cons_of_mem _ he)
  case positive => exact List.forall_mem_cons.mpr ⟨Nat.succ_pos n, hpositive⟩
  case found =>
    intro r hr hrnan
    rw [List.exists_mem_cons_iff]
    rcases List.mem_append.mp hr with hr | hr
    · have hfound := h.found r hr hrnan
      rwa [List.exists_mem_cons_iff] at hfound
    · obtain rfl := List.mem_singleton.mp hr
      exact .inl hequal
  case distinct => exact List.pairwise_cons.mpr ⟨hapart, hdistinct⟩
  case total =>
    have htotal := h.total
    simp only [List.map_cons, List.sum_cons, List.length_append, List.length_singleton] at htotal ⊢
    omega

theorem Counts.tally (h : Counts entries probabilities) (p : Binary64) :
    Counts (Encoder.tally p entries) (probabilities ++ [p]) := by
  rcases tally_cases p entries with ⟨q, n, rest, hentries, hequal, htally⟩ | ⟨hnone, htally⟩
  · exact ((h.perm hentries.symm).concat_found hequal).perm htally
  · exact (h.concat_new hnone).perm htally

theorem counts_probabilityCounts (probabilities : List Binary64) :
    Counts (probabilityCounts probabilities) probabilities := by
  have hfold : Counts (probabilities.foldl (fun counts p => Encoder.tally p counts) [])
      probabilities := by
    induction probabilities using List.reverseRecOn with
    | nil => exact counts_nil
    | append_singleton probabilities p ih =>
      rw [List.foldl_concat]
      exact ih.tally p
  exact hfold.perm (List.mergeSort_perm _ _)

/-- By strictly ascending probability. -/
def Ascends (entries : List (Binary64 × Nat)) : Prop :=
  entries.Pairwise fun a b => a.1.isNaN = false → b.1.isNaN = false → a.1.lt b.1 = true

theorem ascends_probabilityCounts (probabilities : List Binary64) :
    Ascends (probabilityCounts probabilities) := by
  have hsorted : (probabilityCounts probabilities).Pairwise fun a b =>
      decide (a.1.totalKey ≤ b.1.totalKey) = true :=
    List.pairwise_mergeSort (fun a b c => by simpa using Int.le_trans)
      (fun a b => by simpa using Int.le_total a.1.totalKey b.1.totalKey) _
  have hdistinct := (counts_probabilityCounts probabilities).distinct
  refine (hsorted.and hdistinct).imp fun {a b} hab ha hb => ?_
  exact Binary64.lt_of_totalKey_le (of_decide_eq_true hab.1) hab.2 ha hb

end Encoder

/-! ## The header read back -/

namespace Binary64

/-- What a text tells of a double: of a NaN only that it is one. -/
def shown (x : Binary64) : Binary64 := if x.isNaN then .nan else x

variable {x y : Binary64}

theorem shown_of_not_isNaN (h : x.isNaN = false) : x.shown = x := if_neg (by simp [h])

theorem isNaN_shown (x : Binary64) : x.shown.isNaN = x.isNaN := by
  unfold shown
  split
  next h => exact h.symm ▸ (by decide : Binary64.nan.isNaN = true)
  next => rfl

theorem equal_shown (x y : Binary64) : x.shown.equal y = x.equal y := by
  cases h : x.isNaN with
  | false => rw [shown_of_not_isNaN h]
  | true => simp [equal, isNaN_shown, h]

end Binary64

theorem DecimalText.parse?_text_shown (l : Layout) (x : Binary64) :
    parse? (l.text x) = some x.shown := by
  unfold Binary64.shown
  by_cases hnan : x.isNaN = true
  · rw [Layout.text, if_pos hnan, if_pos hnan]
    rfl
  rw [if_neg hnan]
  by_cases hfinite : x.isFinite = true
  · exact parse?_text l hfinite
  have hinf : x.magnitudeBits = Binary64.infinityBits := by
    simp only [Binary64.isNaN, Binary64.isFinite, decide_eq_true_iff] at hnan hfinite
    omega
  have hx : x = .infinity x.negative := by
    rw [Binary64.infinity, ← hinf, Binary64.make_magnitudeBits]
  have hinfinite : x.isInfinite = true := decide_eq_true hinf
  rw [Layout.text, if_neg hnan, if_pos hinfinite]
  conv_rhs => rw [hx]
  cases x.negative <;> rfl

namespace SamplingHeader

/-- A probability and how many spans have it, with a colon between them. -/
def item? (text : List Char) : Option (Binary64 × Nat) :=
  match text.span (· != ':') with
  | (probability, _ :: count) =>
    (DecimalText.parse? probability).bind fun p => (Wire.natural? count).map (p, ·)
  | (_, []) => none

/-- The entries of the header, which semicolons set apart. -/
def entries? (text : String) : Option (List (Binary64 × Nat)) :=
  if text = "" then some [] else (text.toList.splitOn ';').mapM item?

/-- An entry as the header shows it. -/
def shown (e : Binary64 × Nat) : Binary64 × Nat := (e.1.shown, e.2)

theorem item?_countText (e : Binary64 × Nat) :
    item? (Encoder.countText e).toList = some (shown e) := by
  have hcolon : ∀ c ∈ Layout.header.text e.1, (c != ':') = true := by
    have hmarks : ¬ Layout.Writes ':' := by decide
    intro c hc
    rw [bne_iff_ne]
    rintro rfl
    exact hmarks (Layout.writesAll_text _ _ _ hc)
  have hspan : (Encoder.countText e).toList.span (· != ':') =
      (Layout.header.text e.1, ':' :: Nat.toDigits 10 e.2) := by
    rw [Encoder.countText, String.toList_ofList, List.span_eq_takeWhile_dropWhile,
      List.takeWhile_append_of_pos hcolon, List.dropWhile_append_of_pos hcolon]
    simp
  rw [item?, hspan]
  simp [DecimalText.parse?_text_shown, Wire.natural?_toDigits, shown]

theorem not_mem_countText (e : Binary64 × Nat) : ';' ∉ (Encoder.countText e).toList := by
  have hmarks : ¬ Layout.Writes ';' := by decide
  rw [Encoder.countText, String.toList_ofList, List.mem_append, List.mem_cons, not_or, not_or]
  refine ⟨fun hm => hmarks (Layout.writesAll_text _ _ _ hm), by decide, fun hm => ?_⟩
  exact hmarks (Layout.writesAll_toDigits _ _ hm)

theorem entries?_samplingText (spans : List Span) :
    entries? (Encoder.samplingText spans) =
      some ((Encoder.probabilityCounts (spans.map Span.probability)).map shown) := by
  unfold entries? Encoder.samplingText
  generalize Encoder.probabilityCounts _ = counts
  by_cases hnil : counts = []
  · subst hnil
    rfl
  have hparts : ∀ part ∈ counts.map fun e => (Encoder.countText e).toList, ';' ∉ part := by
    intro part hpart
    obtain ⟨e, -, rfl⟩ := List.mem_map.mp hpart
    exact not_mem_countText e
  have hsplit : (String.intercalate ";" (counts.map Encoder.countText)).toList.splitOn ';' =
      counts.map fun e => (Encoder.countText e).toList := by
    rw [String.toList_intercalate, List.map_map]
    exact List.splitOn_intercalate ';' hparts (by simpa using hnil)
  have hne : String.intercalate ";" (counts.map Encoder.countText) ≠ "" := by
    intro hempty
    obtain ⟨e, more, rfl⟩ := List.exists_cons_of_ne_nil hnil
    rw [hempty] at hsplit
    have hfirst : (Encoder.countText e).toList = [] := (List.cons.inj hsplit).1.symm
    simp [Encoder.countText] at hfirst
  rw [if_neg hne, hsplit]
  exact Wire.mapM_map_some item?_countText counts

end SamplingHeader

namespace Encoder

open SamplingHeader

variable {entries : List (Binary64 × Nat)} {probabilities : List Binary64}

theorem Counts.shown (h : Counts entries probabilities) :
    Counts (entries.map SamplingHeader.shown) probabilities where
  counted := by
    refine List.forall_mem_map.mpr fun e he hnan => ?_
    have hnan : e.1.isNaN = false := (Binary64.isNaN_shown e.1).symm.trans hnan
    simp only [SamplingHeader.shown, Binary64.shown_of_not_isNaN hnan, h.counted e he hnan]
  alone := by
    refine List.forall_mem_map.mpr fun e he hnan => ?_
    exact h.alone e he ((Binary64.isNaN_shown e.1).symm.trans hnan)
  positive := List.forall_mem_map.mpr h.positive
  found q hq hnan := by
    obtain ⟨e, he, hequal⟩ := h.found q hq hnan
    exact ⟨_, List.mem_map_of_mem he, (Binary64.equal_shown e.1 q).trans hequal⟩
  distinct := by
    refine List.pairwise_map.mpr (h.distinct.imp fun {a b} hab => ?_)
    calc a.1.shown.equal b.1.shown
      _ = a.1.equal b.1.shown := Binary64.equal_shown ..
      _ = b.1.shown.equal a.1 := Binary64.equal_comm ..
      _ = b.1.equal a.1 := Binary64.equal_shown ..
      _ = a.1.equal b.1 := Binary64.equal_comm ..
      _ = false := hab
  total := by
    rw [List.map_map]
    exact h.total

theorem Ascends.shown (h : Ascends entries) : Ascends (entries.map SamplingHeader.shown) := by
  refine List.pairwise_map.mpr (h.imp fun {a b} hab ha hb => ?_)
  have ha : a.1.isNaN = false := (Binary64.isNaN_shown a.1).symm.trans ha
  have hb : b.1.isNaN = false := (Binary64.isNaN_shown b.1).symm.trans hb
  simp only [SamplingHeader.shown, Binary64.shown_of_not_isNaN ha, Binary64.shown_of_not_isNaN hb]
  exact hab ha hb

theorem body_finish (e : Encoder) (now : UInt64) (raw : Bytes) (sampling : Option String) :
    (e.finish now raw sampling).body = if 128 ≤ raw.length then e.codec.pack raw else raw := by
  by_cases h : 128 ≤ raw.length <;> simp [finish, packingThreshold, h]

theorem headers_finish (e : Encoder) (now : UInt64) (raw : Bytes) (sampling : Option String) :
    (e.finish now raw sampling).headers =
      [("Bugsnag-Api-Key", e.apiKey), ("Content-Type", "application/json")] ++
      (if 128 ≤ raw.length then [("Content-Encoding", "gzip")] else []) ++
      Payload.headersOf e.codec (e.finish now raw sampling).body ++
      (sampling.map fun s => ("Bugsnag-Span-Sampling", s)).toList := by
  rw [body_finish]
  by_cases h : 128 ≤ raw.length <;> simp [finish, packingThreshold, h]

/-- The headers of a batch are, in this order, the key, the type, the packing exactly if the
document has at least 128 bytes (and then the body unpacks to it, else it is the body), length and
digest of the body, and the sampling header exactly if it is wanted. Read back, the latter has one
entry for each probability, in strictly ascending order, with the number of spans that have it; so
the numbers are positive and add up to that of the spans. -/
theorem census_encode {e : Encoder} {unpack : Bytes → Option Bytes}
    (hunpack : e.codec.UnpackedBy unpack) (c : Clock) (spans : List Span)
    (resource : Attributes) :
    let p := e.encode c spans resource
    let raw := rawBody c spans resource
    ∃ sampling entries,
      p.headers = [("Bugsnag-Api-Key", e.apiKey), ("Content-Type", "application/json")] ++
        (if 128 ≤ raw.length then [("Content-Encoding", "gzip")] else []) ++
        [("Content-Length", Nat.repr p.body.length),
          ("Bugsnag-Integrity", "sha1 " ++ String.ofList (Hex.bytes (e.codec.digest p.body)))] ++
        (if e.reportsSampling then [("Bugsnag-Span-Sampling", sampling)] else []) ∧
      (if 128 ≤ raw.length then p.body = e.codec.pack raw ∧ unpack p.body = some raw
        else p.body = raw) ∧
      entries? sampling = some entries ∧
      Counts entries (spans.map Span.probability) ∧ Ascends entries := by
  intro p raw
  have hcounts := counts_probabilityCounts (spans.map Span.probability)
  have hascends := ascends_probabilityCounts (spans.map Span.probability)
  have hbody : p.body = if 128 ≤ raw.length then e.codec.pack raw else raw := body_finish ..
  refine ⟨samplingText spans, _, ?_, ?_, entries?_samplingText spans, hcounts.shown,
    hascends.shown⟩
  · have hsampling : ((if e.reportsSampling then some (samplingText spans) else none).map fun s =>
        ("Bugsnag-Span-Sampling", s)).toList =
        if e.reportsSampling then [("Bugsnag-Span-Sampling", samplingText spans)] else [] := by
      cases e.reportsSampling <;> rfl
    rw [← hsampling]
    exact headers_finish ..
  · split
    next hlong =>
      rw [if_pos hlong] at hbody
      exact ⟨hbody, hbody ▸ hunpack raw⟩
    next hshort => rw [hbody, if_neg hshort]

/-- Three spans, two of them with the probability one, are packed and counted. -/
theorem census_encode_of_three :
    let e : Encoder := ⟨"key", true, .standard⟩
    let span : Span := .create ⟨7, 9⟩ 0 .internal .custom 5 false none .standard "a"
    let spans := [span, { span with probability := .ofRatio false 1 2 }, span]
    let p := e.encode default spans .empty
    p.headers.map Prod.fst = ["Bugsnag-Api-Key", "Content-Type", "Content-Encoding",
        "Content-Length", "Bugsnag-Integrity", "Bugsnag-Span-Sampling"] ∧
      StoredGzip.unpack? p.body = some (rawBody default spans .empty) ∧
      ∃ sampling entries, p.headers.getLast? = some ("Bugsnag-Span-Sampling", sampling) ∧
        entries? sampling = some entries ∧ (entries.map Prod.snd).sum = 3 := by
  intro e span spans p
  have hlong : 128 ≤ (rawBody default spans .empty).length := by decide +kernel
  have hall := census_encode (e := e) Codec.unpackedBy_standard default spans .empty
  simp only [if_pos hlong] at hall
  obtain ⟨sampling, entries, hheaders, hbody, hread, hcounts, -⟩ := hall
  refine ⟨?_, hbody.2, sampling, entries, ?_, hread, hcounts.total⟩
  · rw [hheaders]
    rfl
  · rw [hheaders]
    rfl

end Encoder
end SpanRelay
