import Mathlib.Data.List.Forall2
import Mathlib.Data.List.TakeWhile
import SpanRelay.Proofs.Text.Utf8

/-!
What a retry file gives back. The content of a file is a list of lines, an empty line and the body;
a payload comes back unchanged exactly when its headers fit on such lines.
-/
namespace SpanRelay.RetryFile

/-- A line that would not be cut in two. -/
def Unbroken (line : Bytes) : Prop := ¬ lineEnd <:+: line

/-- A header that fits on one line and is read back from it as it was. -/
structure FitsLine (h : String × String) : Prop where
  name_colon : ':' ∉ h.1.toList
  name_unbroken : ¬ ['\r', '\n'] <:+: h.1.toList
  value_unbroken : ¬ ['\r', '\n'] <:+: h.2.toList
  value_start : ∀ c ∈ h.2.toList.head?, Blank.isBlank c = false

theorem fitsLine_iff (h : String × String) :
    FitsLine h ↔ ':' ∉ h.1.toList ∧ ¬ ['\r', '\n'] <:+: h.1.toList ∧
      ¬ ['\r', '\n'] <:+: h.2.toList ∧ ∀ c ∈ h.2.toList.head?, Blank.isBlank c = false :=
  ⟨fun ⟨a, b, c, d⟩ => ⟨a, b, c, d⟩, fun ⟨a, b, c, d⟩ => ⟨a, b, c, d⟩⟩

/-- Every header of the payload fits on a line. -/
def Storable (p : Payload) : Prop := ∀ h ∈ p.headers, FitsLine h

/-! ## Lines -/

theorem lineEnd_prefix_iff {b : UInt8} {rest : Bytes} :
    lineEnd <+: b :: rest ↔ b = 0x0d ∧ rest.head? = some 0x0a := by
  unfold lineEnd
  rw [List.cons_prefix_cons]
  cases rest with
  | nil => simp [eq_comm]
  | cons c rest => simp [List.cons_prefix_cons, eq_comm]

/-- A byte that begins no line end belongs to the line. -/
theorem scan_cons {headers : List (String × String)} {line : Bytes} {b : UInt8} {rest : Bytes}
    (h : ¬ (b = 0x0d ∧ rest.head? = some 0x0a)) :
    scan headers line (b :: rest) = scan headers (b :: line) rest := by
  rw [scan]
  rintro tail rfl rfl
  exact h ⟨rfl, rfl⟩

theorem scan_line {line : Bytes} (hl : Unbroken line) (headers : List (String × String))
    (before rest : Bytes) :
    scan headers before (line ++ (lineEnd ++ rest)) =
      scan headers (line.reverse ++ before) (lineEnd ++ rest) := by
  induction line generalizing before with
  | nil => rfl
  | cons b line ih =>
    rw [Unbroken, List.infix_cons_iff, not_or, lineEnd_prefix_iff] at hl
    rw [List.cons_append, scan_cons, ih hl.2]
    · simp
    · rintro ⟨hb, hr⟩
      cases line with
      | nil => simp [lineEnd] at hr
      | cons c line => exact hl.1 ⟨hb, by simpa using hr⟩

theorem scan_full_line {line : Bytes} (hl : Unbroken line) (hne : line ≠ [])
    {h : String × String} (hh : header? line = .ok h) (headers : List (String × String))
    (rest : Bytes) :
    scan headers [] (line ++ (lineEnd ++ rest)) = scan (h :: headers) [] rest := by
  rw [scan_line hl, List.append_nil]
  have hr : line.reverse.isEmpty = false := by simpa using hne
  have hread : header? line.reverse.reverse = .ok h := by rw [List.reverse_reverse, hh]
  change scan headers line.reverse (0x0d :: 0x0a :: rest) = _
  rw [scan]
  simp only [hr, hread, Bool.false_eq_true, if_false]

/-! ## Headers -/

/-- The text of a header line without its end. -/
def headerText (h : String × String) : String := h.1 ++ ": " ++ h.2

theorem headerLine_eq (h : String × String) :
    headerLine h = Bytes.ofString (headerText h) ++ lineEnd := by
  have hsep : Bytes.ofString ": " = [0x3a, 0x20] := by decide
  simp only [headerLine, headerText, Bytes.ofString_append, hsep]

theorem toList_headerText (h : String × String) :
    (headerText h).toList = h.1.toList ++ ':' :: ' ' :: h.2.toList := by
  simp [headerText]

/-- A pair is not found across a character that belongs to neither end of it. -/
theorem pair_infix_append_cons {a b c : Char} (ha : c ≠ a) (hb : c ≠ b) (front rest : List Char) :
    [a, b] <:+: front ++ c :: rest ↔ [a, b] <:+: front ∨ [a, b] <:+: rest := by
  induction front with
  | nil =>
    rw [List.nil_append, List.infix_cons_iff, List.cons_prefix_cons]
    simp [ha.symm]
  | cons d front ih =>
    rw [List.cons_append, List.infix_cons_iff, ih, List.infix_cons_iff, or_assoc]
    refine or_congr_left ?_
    rw [List.cons_prefix_cons, List.cons_prefix_cons]
    cases front with
    | nil => simp [List.cons_prefix_cons, hb.symm]
    | cons e front => simp [List.cons_prefix_cons]

theorem FitsLine.unbroken {h : String × String} (hf : FitsLine h) :
    Unbroken (Bytes.ofString (headerText h)) := by
  rw [Unbroken, Bytes.ofString_eq_flatMap, Bytes.lineEnd_infix_iff, toList_headerText,
    pair_infix_append_cons (by decide) (by decide)]
  rintro (hn | hv)
  · exact hf.name_unbroken hn
  · refine hf.value_unbroken ?_
    have hv := (pair_infix_append_cons (by decide) (by decide) [] h.2.toList).mp hv
    simpa using hv

/-- Nothing is cut off a value that begins with no blank. -/
theorem trimStart_of_head {text : List Char} (h : ∀ c ∈ text.head?, Blank.isBlank c = false) :
    Blank.trimStart text = text := by
  cases text with
  | nil => rfl
  | cons c text => exact Blank.trimStart_eq_self (h c rfl)

/-- The name is read up to the first colon, and the value behind it and behind white space. -/
theorem header?_of_parts {name value : String} {blanks : List Char} (hname : ':' ∉ name.toList)
    (hblanks : ∀ c ∈ blanks, Blank.isBlank c = true)
    (hvalue : ∀ c ∈ value.toList.head?, Blank.isBlank c = false) :
    header? (Bytes.ofString (name ++ ":" ++ String.ofList blanks ++ value)) = .ok (name, value) := by
  have htext : (name ++ ":" ++ String.ofList blanks ++ value).toList =
      name.toList ++ ':' :: (blanks ++ value.toList) := by simp
  have hcolon : ∀ c ∈ name.toList, decide (c ≠ ':') = true := by
    intro c hc
    rw [decide_eq_true_iff]
    rintro rfl
    exact hname hc
  have hspan : (name.toList ++ ':' :: (blanks ++ value.toList)).span (· ≠ ':') =
      (name.toList, ':' :: (blanks ++ value.toList)) := by
    rw [List.span_eq_takeWhile_dropWhile, List.takeWhile_append_of_pos hcolon,
      List.dropWhile_append_of_pos hcolon]
    simp
  have htrim : Blank.trimStart (blanks ++ value.toList) = value.toList := by
    rw [Blank.trimStart, List.dropWhile_append_of_pos hblanks]
    exact trimStart_of_head hvalue
  unfold header?
  rw [Bytes.toString?_ofString]
  simp only [htext, hspan, htrim, String.ofList_toList]

theorem FitsLine.header?_eq {h : String × String} (hf : FitsLine h) :
    header? (Bytes.ofString (headerText h)) = .ok h := by
  have hblank : ∀ c ∈ [' '], Blank.isBlank c = true := List.forall_mem_singleton.mpr (by decide)
  have htext : headerText h = h.1 ++ ":" ++ String.ofList [' '] ++ h.2 := by
    simp [← String.toList_inj, toList_headerText]
  rw [htext]
  exact header?_of_parts hf.name_colon hblank hf.value_start

/-- The lines of what was read: each is whole, and what it says is a header. -/
def Reads (line : Bytes) (h : String × String) : Prop :=
  line ≠ [] ∧ Unbroken line ∧ header? line = .ok h

theorem scan_lines {lines : List Bytes} {headers : List (String × String)}
    (hl : List.Forall₂ Reads lines headers) (before : List (String × String)) (body : Bytes) :
    scan before [] (lines.flatMap (· ++ lineEnd) ++ lineEnd ++ body) =
      .ok (before.reverse ++ headers, body) := by
  induction hl generalizing before with
  | nil => simp [lineEnd, scan]
  | @cons line h lines headers hfirst _ ih =>
    obtain ⟨hne, hwhole, hh⟩ := hfirst
    have hrest := ih (h :: before)
    simp only [List.flatMap_cons, List.append_assoc] at hrest ⊢
    rw [scan_full_line hwhole hne hh, hrest]
    simp

theorem FitsLine.reads {h : String × String} (hf : FitsLine h) :
    Reads (Bytes.ofString (headerText h)) h := by
  refine ⟨?_, hf.unbroken, hf.header?_eq⟩
  intro he
  have heq := hf.header?_eq
  rw [he] at heq
  cases heq

theorem scan_headers {headers : List (String × String)} (hf : ∀ h ∈ headers, FitsLine h)
    (before : List (String × String)) (body : Bytes) :
    scan before [] (headers.flatMap headerLine ++ lineEnd ++ body) =
      .ok (before.reverse ++ headers, body) := by
  have hlines : headers.flatMap headerLine =
      (headers.map fun h => Bytes.ofString (headerText h)).flatMap (· ++ lineEnd) := by
    rw [List.flatMap_map, funext headerLine_eq]
  have hreads : List.Forall₂ Reads (headers.map fun h => Bytes.ofString (headerText h)) headers := by
    rw [List.forall₂_map_left_iff, List.forall₂_same]
    exact fun h hh => (hf h hh).reads
  rw [hlines, scan_lines hreads]

theorem parse_render {p : Payload} (hp : Storable p) : parse p.timestamp (render p) = .ok p := by
  unfold parse render
  rw [scan_headers hp]
  rfl

/-! ## Whatever is read fits on lines -/

/-- The header of a line that is not cut in two fits on a line. -/
theorem fitsLine_of_header? {line : Bytes} (hl : Unbroken line) {h : String × String}
    (hh : header? line = .ok h) : FitsLine h := by
  unfold header? at hh
  split at hh
  · contradiction
  next s hs =>
  rw [Unbroken, ← Bytes.ofString_of_toString? hs, Bytes.ofString_eq_flatMap,
    Bytes.lineEnd_infix_iff] at hl
  rw [List.span_eq_takeWhile_dropWhile] at hh
  split at hh
  next name colon value he =>
    obtain ⟨hname, hrest⟩ := Prod.mk.inj he
    obtain rfl := Except.ok.inj hh
    have hvalue : Blank.trimStart value <:+ s.toList :=
      (List.dropWhile_suffix _).trans ((List.suffix_cons colon value).trans
        (hrest ▸ List.dropWhile_suffix _))
    constructor <;> rw [String.toList_ofList]
    · intro hm
      rw [← hname] at hm
      simpa using List.mem_takeWhile_imp hm
    · intro hi
      exact hl (hi.trans (hname ▸ (List.takeWhile_prefix _).isInfix))
    · intro hi
      exact hl (hi.trans hvalue.isInfix)
    · intro c hc
      have hd := List.head?_dropWhile_not Blank.isBlank value
      rw [← Blank.trimStart, Option.mem_def.mp hc] at hd
      simpa using hd
  · contradiction

/-- A line stays whole with another byte unless the two last bytes are a line end. -/
theorem Unbroken.concat {line : Bytes} {b : UInt8} (hl : Unbroken line.reverse)
    (hb : line.head? = some 0x0d → b ≠ 0x0a) : Unbroken (b :: line).reverse := by
  have hr : lineEnd = [0x0a, 0x0d].reverse := rfl
  rw [Unbroken, hr, List.reverse_infix] at hl ⊢
  rw [List.infix_cons_iff, not_or]
  refine ⟨fun hp => ?_, hl⟩
  rw [List.cons_prefix_cons] at hp
  cases line with
  | nil => simp at hp
  | cons c line =>
    obtain ⟨rfl, hc⟩ := hp
    exact hb (by simpa [eq_comm] using hc) rfl

/-- A content that can be read is made of header lines, an empty line and the body. The beginning
of the first line may have been read before. -/
theorem exists_lines_of_scan {before : List (String × String)} {line content : Bytes}
    {result : List (String × String) × Bytes} (hs : scan before line content = .ok result)
    (hl : Unbroken line.reverse)
    (hb : line.head? = some 0x0d → content.head? ≠ some 0x0a) :
    ∃ lines : List (Bytes × (String × String)), (∀ e ∈ lines, Reads e.1 e.2) ∧
      line.reverse ++ content = lines.flatMap (·.1 ++ lineEnd) ++ lineEnd ++ result.2 ∧
      result.1 = before.reverse ++ lines.map Prod.snd := by
  fun_induction scan before line content with
  | case1 before line rest he =>
    obtain rfl := List.isEmpty_iff.mp he
    obtain rfl := Except.ok.inj hs
    exact ⟨[], by simp, by simp [lineEnd], by simp⟩
  | case2 before line rest he h hh ih =>
    have hne : line.reverse ≠ [] := by simpa using he
    obtain ⟨lines, hlines, hcontent, hresult⟩ := ih hs (by simp [Unbroken, lineEnd]) (by simp)
    refine ⟨(line.reverse, h) :: lines, ?_, ?_, ?_⟩
    · simpa using ⟨⟨hne, hl, hh⟩, fun a b c => hlines (a, b, c)⟩
    · rw [List.reverse_nil, List.nil_append] at hcontent
      simp [hcontent, lineEnd]
    · simp [hresult]
  | case3 before line rest he c hh => contradiction
  | case4 before line b rest hne ih =>
    have hwhole : Unbroken (b :: line).reverse := by
      refine hl.concat fun hc h => hb hc ?_
      rw [h]
      rfl
    have hnext : (b :: line).head? = some 0x0d → rest.head? ≠ some 0x0a := by
      intro hc h
      cases rest with
      | nil => simp at h
      | cons d rest => exact hne rest (by simpa using hc) (by simpa using h)
    obtain ⟨lines, hlines, hcontent, hresult⟩ := ih hs hwhole hnext
    refine ⟨lines, hlines, ?_, hresult⟩
    rw [← hcontent]
    simp
  | case5 => contradiction

theorem parse_eq_ok_iff {timestamp : UInt64} {content : Bytes} {p : Payload} :
    parse timestamp content = .ok p ↔
      p.timestamp = timestamp ∧ scan [] [] content = .ok (p.headers, p.body) := by
  unfold parse
  constructor
  · intro h
    cases hs : scan [] [] content with
    | error c =>
      rw [hs] at h
      contradiction
    | ok result =>
      rw [hs] at h
      obtain rfl := Except.ok.inj h
      exact ⟨rfl, rfl⟩
  · rintro ⟨rfl, hs⟩
    rw [hs]
    rfl

theorem timestamp_of_parse {timestamp : UInt64} {content : Bytes} {p : Payload}
    (h : parse timestamp content = .ok p) : p.timestamp = timestamp := (parse_eq_ok_iff.mp h).1

/-- What is read as a payload is made of header lines, an empty line and the body. -/
theorem exists_lines_of_parse {timestamp : UInt64} {content : Bytes} {p : Payload}
    (h : parse timestamp content = .ok p) :
    ∃ lines : List (Bytes × (String × String)), (∀ e ∈ lines, Reads e.1 e.2) ∧
      content = lines.flatMap (·.1 ++ lineEnd) ++ lineEnd ++ p.body ∧
      p.headers = lines.map Prod.snd :=
  exists_lines_of_scan (parse_eq_ok_iff.mp h).2 (by simp [Unbroken, lineEnd]) (by simp)

theorem storable_of_parse {timestamp : UInt64} {content : Bytes} {p : Payload}
    (h : parse timestamp content = .ok p) : Storable p := by
  obtain ⟨lines, hlines, -, hheaders⟩ := exists_lines_of_parse h
  intro g hg
  rw [hheaders, List.mem_map] at hg
  obtain ⟨e, he, rfl⟩ := hg
  obtain ⟨-, hwhole, hh⟩ := hlines e he
  exact fitsLine_of_header? hwhole hh

/-- A payload comes back from its file unchanged exactly when its headers fit on lines. -/
theorem parse_render_iff (p : Payload) :
    parse p.timestamp (render p) = .ok p ↔ Storable p :=
  ⟨storable_of_parse, parse_render⟩

end SpanRelay.RetryFile
