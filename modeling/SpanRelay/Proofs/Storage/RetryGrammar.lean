import SpanRelay.Proofs.Storage.RetryTurn

/-!
The grammar of a retry file: header lines, an empty line and a body. A content is read exactly if it
is of this form, and there is only one way in which it can be. A file of any other content is found
corrupt, and it is deleted when its turn comes.
-/
namespace SpanRelay

namespace RetryFile

/-! ## The grammar -/

/-- A line of text with a colon in it. -/
structure IsHeaderLine (line : Bytes) : Prop where
  nonempty : line ≠ []
  unbroken : Unbroken line
  text : ∃ s : String, line = Bytes.ofString s ∧ ':' ∈ s.toList

/-- Header lines, an empty line and the body. Each line has its end behind it. -/
structure IsContent (content : Bytes) (lines : List Bytes) (body : Bytes) : Prop where
  eq : content = lines.flatMap (· ++ lineEnd) ++ lineEnd ++ body
  lines : ∀ line ∈ lines, IsHeaderLine line

/-- The name is the text up to the first colon, the value is what stands behind it and behind white
space. -/
structure Gives (line : Bytes) (h : String × String) : Prop where
  name : ':' ∉ h.1.toList
  value : ∀ c ∈ h.2.toList.head?, Blank.isBlank c = false
  text : ∃ blanks : List Char, (∀ c ∈ blanks, Blank.isBlank c = true) ∧
    line = Bytes.ofString (h.1 ++ ":" ++ String.ofList blanks ++ h.2)

/-! ## One way to take a content apart -/

theorem Unbroken.eq_of_prefix {line other rest tail : Bytes} (ho : Unbroken other)
    (h : line ++ (lineEnd ++ rest) = other ++ (lineEnd ++ tail)) (hp : line <+: other) :
    line = other := by
  obtain ⟨more, rfl⟩ := hp
  rw [List.append_assoc, List.append_cancel_left_eq] at h
  -- what stands behind the line begins with its end, which the other line would have in it
  match more with
  | [] => rw [List.append_nil]
  | [c] => simp [lineEnd] at h
  | c :: d :: more =>
    have hpair : c :: d :: more = lineEnd ++ more := by
      simp only [lineEnd, List.cons_append, List.nil_append, List.cons.injEq] at h ⊢
      exact ⟨h.1.symm, h.2.1.symm, trivial⟩
    exact absurd ⟨line, more, by rw [hpair, List.append_assoc]⟩ ho

/-- The first line end tells where a line ends. -/
theorem Unbroken.append_inj {line other rest tail : Bytes} (hl : Unbroken line)
    (ho : Unbroken other) (h : line ++ (lineEnd ++ rest) = other ++ (lineEnd ++ tail)) :
    line = other ∧ rest = tail := by
  have hline : line <+: other ++ (lineEnd ++ tail) := h ▸ List.prefix_append line _
  have heq : line = other := by
    rcases List.prefix_or_prefix_of_prefix hline (List.prefix_append other _) with hp | hp
    · exact ho.eq_of_prefix h hp
    · exact (hl.eq_of_prefix h.symm hp).symm
  subst heq
  simpa using h

/-- Where an empty line stands no header line does. -/
theorem IsHeaderLine.ne_lineEnd {line : Bytes} (hl : IsHeaderLine line) (rest tail : Bytes) :
    lineEnd ++ tail ≠ line ++ (lineEnd ++ rest) := by
  intro h
  have hempty : Unbroken [] := by simp [Unbroken, lineEnd]
  exact hl.nonempty (hempty.append_inj hl.unbroken h).1.symm

theorem IsContent.unique {content body other : Bytes} {lines others : List Bytes}
    (h : IsContent content lines body) (g : IsContent content others other) :
    others = lines ∧ other = body := by
  obtain ⟨hcontent, hlines⟩ := h
  obtain ⟨heq, hothers⟩ := g
  rw [hcontent] at heq
  clear hcontent
  induction lines generalizing others with
  | nil =>
    cases others with
    | nil => simpa [eq_comm] using heq
    | cons o others =>
      have ho := hothers o List.mem_cons_self
      simp only [List.flatMap_cons, List.flatMap_nil, List.nil_append, List.append_assoc] at heq
      exact absurd heq (ho.ne_lineEnd _ _)
  | cons l lines ih =>
    cases others with
    | nil =>
      have hl := hlines l List.mem_cons_self
      simp only [List.flatMap_cons, List.flatMap_nil, List.nil_append, List.append_assoc] at heq
      exact absurd heq.symm (hl.ne_lineEnd _ _)
    | cons o others =>
      rw [List.forall_mem_cons] at hlines hothers
      simp only [List.flatMap_cons, List.append_assoc] at heq ih
      obtain ⟨rfl, hrest⟩ := hlines.1.unbroken.append_inj hothers.1.unbroken heq
      obtain ⟨rfl, rfl⟩ := ih hlines.2 hrest hothers.2
      exact ⟨rfl, rfl⟩

/-! ## What a line gives -/

theorem Gives.header?_eq {line : Bytes} {h : String × String} (hg : Gives line h) :
    header? line = .ok h := by
  obtain ⟨hname, hvalue, blanks, hblanks, rfl⟩ := hg
  exact header?_of_parts hname hblanks hvalue

theorem exists_gives {s : String} (hs : ':' ∈ s.toList) : ∃ h, Gives (Bytes.ofString s) h := by
  obtain ⟨name, rest, hsplit, hname⟩ := List.eq_append_cons_of_mem hs
  refine ⟨(String.ofList name, String.ofList (Blank.trimStart rest)), ?_, ?_,
    rest.takeWhile Blank.isBlank, fun c hc => List.mem_takeWhile_imp hc, ?_⟩
  · rwa [String.toList_ofList]
  · intro c hc
    have hhead := List.head?_dropWhile_not Blank.isBlank rest
    rw [String.toList_ofList, Blank.trimStart] at hc
    rw [Option.mem_def.mp hc] at hhead
    simpa using hhead
  · congr 1
    rw [← String.toList_inj]
    simp [hsplit, Blank.trimStart, List.takeWhile_append_dropWhile]

theorem colon_of_header? {line : Bytes} {h : String × String} (hh : header? line = .ok h) :
    ∃ s : String, line = Bytes.ofString s ∧ ':' ∈ s.toList := by
  unfold header? at hh
  split at hh
  · contradiction
  next s hs =>
    refine ⟨s, (Bytes.ofString_of_toString? hs).symm, ?_⟩
    rw [List.span_eq_takeWhile_dropWhile] at hh
    split at hh
    next name colon value he =>
      have hsuffix : colon :: value <:+ s.toList :=
        (Prod.mk.inj he).2 ▸ List.dropWhile_suffix _
      have hcolon := List.head?_dropWhile_not (fun c => decide (c ≠ ':')) s.toList
      rw [(Prod.mk.inj he).2] at hcolon
      obtain rfl : colon = ':' := by simpa using hcolon
      exact hsuffix.subset List.mem_cons_self
    · contradiction

theorem Reads.isHeaderLine {line : Bytes} {h : String × String} (hr : Reads line h) :
    IsHeaderLine line := by
  obtain ⟨hne, hwhole, hh⟩ := hr
  exact ⟨hne, hwhole, colon_of_header? hh⟩

theorem IsHeaderLine.reads {line : Bytes} (hl : IsHeaderLine line) {h : String × String}
    (hg : Gives line h) : Reads line h := ⟨hl.nonempty, hl.unbroken, hg.header?_eq⟩

theorem exists_forall₂_gives {lines : List Bytes} (hl : ∀ line ∈ lines, IsHeaderLine line) :
    ∃ headers, List.Forall₂ Gives lines headers := by
  induction lines with
  | nil => exact ⟨[], .nil⟩
  | cons line lines ih =>
    rw [List.forall_mem_cons] at hl
    obtain ⟨s, rfl, hs⟩ := hl.1.text
    obtain ⟨h, hh⟩ := exists_gives hs
    obtain ⟨headers, hheaders⟩ := ih hl.2
    exact ⟨h :: headers, .cons hh hheaders⟩

/-! ## What is read -/

theorem IsContent.parse_eq {content body : Bytes} {lines : List Bytes}
    (h : IsContent content lines body) {headers : List (String × String)}
    (hg : List.Forall₂ Gives lines headers) (timestamp : UInt64) :
    parse timestamp content = .ok ⟨timestamp, headers, body⟩ := by
  obtain ⟨rfl, hlines⟩ := h
  have hreads : List.Forall₂ Reads lines headers := by
    rw [List.forall₂_iff_get] at hg ⊢
    exact ⟨hg.1, fun i hi hj => (hlines _ (List.get_mem ..)).reads (hg.2 i hi hj)⟩
  exact parse_eq_ok_iff.mpr ⟨rfl, scan_lines hreads [] body⟩

theorem exists_isContent {timestamp : UInt64} {content : Bytes} {p : Payload}
    (h : parse timestamp content = .ok p) : ∃ lines, IsContent content lines p.body := by
  obtain ⟨lines, hlines, hcontent, -⟩ := exists_lines_of_parse h
  refine ⟨lines.map Prod.fst, ?_, List.forall_mem_map.mpr fun e he => (hlines e he).isHeaderLine⟩
  rw [List.flatMap_map]
  exact hcontent

/-- A payload is read exactly from what the grammar allows. -/
theorem exists_parse_eq_ok_iff (timestamp : UInt64) (content : Bytes) :
    (∃ p, parse timestamp content = .ok p) ↔ ∃ lines body, IsContent content lines body := by
  constructor
  · rintro ⟨p, hp⟩
    obtain ⟨lines, hc⟩ := exists_isContent hp
    exact ⟨lines, p.body, hc⟩
  · rintro ⟨lines, body, hc⟩
    obtain ⟨headers, hheaders⟩ := exists_forall₂_gives hc.lines
    exact ⟨_, hc.parse_eq hheaders timestamp⟩

end RetryFile

namespace RetryQueue

/-! ## The turn of a file -/

variable {q : RetryQueue} {t : FileTree} {now timestamp : UInt64} {path : Path}

/-- A file that is not read is the only one that goes, apart from the expired ones. -/
theorem next_of_error (hs : t.Sound) {content : Bytes} {c : Corruption}
    (hturn : q.turn? t now = some (timestamp, path))
    (hread : (q.sweep t now).read? path = some content)
    (hparse : RetryFile.parse timestamp content = .error c) :
    (q.next t now).1 = none ∧ ∀ other, (q.next t now).2.node? other =
      if path = other then none else (q.sweep t now).node? other := by
  have hnext := next_of_turn hturn hread
  rw [hparse] at hnext
  rw [hnext]
  refine ⟨rfl, fun other => ?_⟩
  rw [FileTree.node?_removeFile (sound_sweep hs now), hread]
  simp

/-- A content is read exactly if it is header lines, an empty line and a body, which it can be in
one way only. When the turn of its file comes, the payload of that content is answered; if the
content is none, no payload is, and that file is deleted. -/
theorem reads_by_grammar (timestamp : UInt64) (content : Bytes) :
    ((∃ p, RetryFile.parse timestamp content = .ok p) ↔
      ∃ lines body, RetryFile.IsContent content lines body) ∧
    (∀ lines body, RetryFile.IsContent content lines body →
      (∀ others other, RetryFile.IsContent content others other →
        others = lines ∧ other = body) ∧
      ∃ headers, List.Forall₂ RetryFile.Gives lines headers ∧
        (∀ others, List.Forall₂ RetryFile.Gives lines others → others = headers) ∧
        RetryFile.parse timestamp content = .ok ⟨timestamp, headers, body⟩ ∧
        ∀ q : RetryQueue, ∀ t now path, t.Sound → q.turn? t now = some (timestamp, path) →
          (q.sweep t now).read? path = some content →
          q.next t now = (some ⟨timestamp, headers, body⟩, q.sweep t now)) ∧
    ((¬ ∃ lines body, RetryFile.IsContent content lines body) →
      (∃ c, RetryFile.parse timestamp content = .error c) ∧
      ∀ q : RetryQueue, ∀ t now path, t.Sound → q.turn? t now = some (timestamp, path) →
        (q.sweep t now).read? path = some content →
        (q.next t now).1 = none ∧ ∀ other, (q.next t now).2.node? other =
          if path = other then none else (q.sweep t now).node? other) := by
  refine ⟨RetryFile.exists_parse_eq_ok_iff timestamp content, fun lines body hc => ?_, fun hc => ?_⟩
  · obtain ⟨headers, hheaders⟩ := RetryFile.exists_forall₂_gives hc.lines
    have hparse := hc.parse_eq hheaders timestamp
    refine ⟨fun others other ho => hc.unique ho, headers, hheaders, fun others ho => ?_, hparse, ?_⟩
    · have hsame := Except.ok.inj (hparse.symm.trans (hc.parse_eq ho timestamp))
      exact (congrArg Payload.headers hsame).symm
    · intro q t now path _ hturn hread
      rw [next_of_turn hturn hread, hparse]
  · cases hparse : RetryFile.parse timestamp content with
    | ok p => exact absurd ((RetryFile.exists_parse_eq_ok_iff _ _).mp ⟨p, hparse⟩) hc
    | error c =>
      exact ⟨⟨c, rfl⟩, fun q t now path hs hturn hread => next_of_error hs hturn hread hparse⟩

/-- A line without a colon keeps a file from being read. Then comes the turn of the next one, where
a carriage return stands in front of a line end. -/
theorem reads_around_carriage_return :
    let q : RetryQueue := ⟨["queue"], 100, fun _ => 0⟩
    let whole : Bytes := [0x61, 0x3a, 0x20, 0x62, 0x0d, 0x0d, 0x0a, 0x0d, 0x0a, 0x0d, 0x0a]
    let u : FileTree := ⟨⟨[((1, ["queue"]), .folder), ((q.pathOf 7).key, .file whole)]⟩⟩
    let other : Bytes := [0x61, 0x0d, 0x0a, 0x0d, 0x0a]
    let v : FileTree := ⟨⟨u.nodes.entries ++ [((q.pathOf 12).key, .file other)]⟩⟩
    (q.next v 20).1 = none ∧ (q.next v 20).2.read? (q.pathOf 12) = none ∧
      (q.next v 20).2.read? (q.pathOf 7) = some whole ∧
      (q.next u 20).1 = some ⟨7, [("a", "b\r")], [0x0d, 0x0a]⟩ := by
  intro q whole u other v
  have hu : u.Sound := ⟨by decide, by decide⟩
  have hv : v.Sound := ⟨by decide, by decide⟩
  have hother : ¬ ∃ lines body, RetryFile.IsContent other lines body := by
    have hparse : RetryFile.parse 12 other = .error .noSeparator := by decide
    rw [← (reads_by_grammar 12 other).1, hparse]
    simp
  have hcontent : RetryFile.IsContent whole [[0x61, 0x3a, 0x20, 0x62, 0x0d]] [0x0d, 0x0a] := by
    refine ⟨by decide, List.forall_mem_singleton.mpr ⟨by decide, ?_, "a: b\r", by decide, by decide⟩⟩
    unfold RetryFile.Unbroken
    decide
  have hgives : List.Forall₂ RetryFile.Gives [[0x61, 0x3a, 0x20, 0x62, 0x0d]] [("a", "b\r")] := by
    refine .cons ⟨by decide, ?_, [' '], List.forall_mem_singleton.mpr (by decide), by decide⟩ .nil
    intro c hc
    obtain rfl := Option.some.inj hc
    decide
  obtain ⟨-, -, hgone⟩ := reads_by_grammar 12 other
  obtain ⟨-, hread, -⟩ := reads_by_grammar 7 whole
  obtain ⟨-, hnext⟩ := hgone hother
  obtain ⟨hnone, hnode⟩ := hnext q v 20 (q.pathOf 12) hv (by decide) (by decide)
  obtain ⟨-, headers, -, honly, -, hsome⟩ := hread _ _ hcontent
  refine ⟨hnone, ?_, ?_, ?_⟩
  · rw [FileTree.read?, hnode, if_pos rfl]
  · rw [FileTree.read?, hnode, if_neg (by decide)]
    decide
  · rw [hsome q u 20 (q.pathOf 7) hu (by decide) (by decide), honly _ hgives]

end RetryQueue
end SpanRelay
