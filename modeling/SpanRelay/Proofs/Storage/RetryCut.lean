import SpanRelay.Proofs.Storage.RetryTurn

/-!
Files that were not written to their end, as when a process dies while it stores a payload. A cut
in front of the body is noticed, and such a file is deleted when its turn comes. Nothing tells a
body that was cut from a whole one.
-/
namespace SpanRelay

namespace RetryFile

/-- What stands in front of the body: the header lines and the empty line. -/
def head (p : Payload) : Bytes := p.headers.flatMap headerLine ++ lineEnd

/-- Of a content that is cut, either the headers come to no end, or they are the same as those of
the whole content and the cut is in the body. -/
theorem scan_of_append {before : List (String × String)} {line cut rest : Bytes}
    {result : List (String × String) × Bytes}
    (h : scan before line (cut ++ rest) = .ok result) :
    scan before line cut = .error .cutShort ∨
      ∃ body, scan before line cut = .ok (result.1, body) ∧ result.2 = body ++ rest := by
  fun_induction scan before line cut with
  | case1 before line tail he =>
    rw [List.cons_append, List.cons_append, scan, if_pos he] at h
    obtain rfl := Except.ok.inj h
    exact .inr ⟨tail, rfl, rfl⟩
  | case2 before line tail he g hg ih =>
    rw [List.cons_append, List.cons_append, scan, if_neg he, hg] at h
    exact ih h
  | case3 before line tail he c hc =>
    rw [List.cons_append, List.cons_append, scan, if_neg he, hc] at h
    contradiction
  | case4 before line b tail hne ih =>
    -- A CR at the very end of the cut may begin a line end of the whole content.
    cases tail with
    | nil => exact .inl rfl
    | cons c tail =>
      have hpair : ¬ (b = 0x0d ∧ (c :: tail ++ rest).head? = some 0x0a) := by
        rintro ⟨hb, hc⟩
        exact hne tail hb (by simpa using hc)
      rw [List.cons_append, scan_cons hpair] at h
      exact ih h
  | case5 => exact .inl rfl

/-- A file that was cut in front of the body is known for one. -/
theorem parse_of_cut {p : Payload} (hp : Storable p) {cut : Bytes} (hcut : cut <+: render p)
    (hlt : cut.length < (head p).length) : parse p.timestamp cut = .error .cutShort := by
  obtain ⟨rest, hrest⟩ := hcut
  have hwhole : scan [] [] (cut ++ rest) = .ok (p.headers, p.body) := by
    rw [hrest, render, scan_headers hp]
    rfl
  rcases scan_of_append hwhole with hshort | ⟨body, -, hbody⟩
  · rw [parse, hshort]
    rfl
  · have hlength := congrArg List.length hrest
    have hbodies := congrArg List.length hbody
    change _ = (head p ++ p.body).length at hlength
    simp only [List.length_append] at hlength hbodies
    omega

/-- A cut that is not in front of the body leaves a part of the body. -/
theorem exists_body_of_cut {p : Payload} {cut : Bytes} (hcut : cut <+: render p)
    (hle : (head p).length ≤ cut.length) : ∃ body, cut = head p ++ body ∧ body <+: p.body := by
  have hhead : head p <+: cut :=
    List.prefix_of_prefix_length_le (List.prefix_append _ _) hcut hle
  obtain ⟨body, rfl⟩ := hhead
  exact ⟨body, rfl, (List.prefix_append_right_inj _).mp hcut⟩

end RetryFile

namespace RetryQueue

variable {q : RetryQueue} {t u v : FileTree} {now : UInt64}

/-- When its turn comes, a file that was cut while it was written is deleted if the cut is in front
of the body. Otherwise its payload is answered with what there is of the body. -/
theorem next_cut {p : Payload} (hp : RetryFile.Storable p) (hadd : q.add t p = .ok u)
    {content cut : Bytes} (hcontent : u.read? (q.pathOf p.timestamp) = some content)
    (hcut : cut <+: content) (hne : cut ≠ content) (hv : v.Sound)
    (hread : v.read? (q.pathOf p.timestamp) = some cut)
    (hturn : q.turn? v now = some (p.timestamp, q.pathOf p.timestamp)) :
    (cut.length < (RetryFile.head p).length →
      RetryFile.parse p.timestamp cut = .error .cutShort ∧ (q.next v now).1 = none ∧
        ∀ path, (q.next v now).2.read? path =
          if q.pathOf p.timestamp = path then none else (q.sweep v now).read? path) ∧
      ((RetryFile.head p).length ≤ cut.length → ∃ body, body <+: p.body ∧ body ≠ p.body ∧
        q.next v now = (some { p with body }, q.sweep v now)) := by
  obtain rfl : RetryFile.render p = content := Option.some.inj ((read?_add hadd).symm.trans hcontent)
  have hswept : (q.sweep v now).read? (q.pathOf p.timestamp) = some cut := by
    obtain ⟨name, found, -, -, hfound⟩ := exists_of_turn hv hturn
    rw [hfound, ← hread, read?_of_sweep hv hfound]
  have hnext := next_of_turn hturn hswept
  constructor
  · intro hlt
    have hparse := RetryFile.parse_of_cut hp hcut hlt
    rw [hparse] at hnext
    refine ⟨hparse, congrArg Prod.fst hnext, fun path => ?_⟩
    rw [hnext]
    exact FileTree.read?_removeFile (sound_sweep hv now) _ _
  · intro hle
    obtain ⟨body, rfl, hbody⟩ := RetryFile.exists_body_of_cut hcut hle
    have hparse : RetryFile.parse p.timestamp (RetryFile.head p ++ body) = .ok { p with body } :=
      RetryFile.parse_render (p := { p with body }) hp
    rw [hparse] at hnext
    refine ⟨body, hbody, ?_, hnext⟩
    rintro rfl
    exact hne rfl

/-- A value that was cut, so that its line has no end. -/
theorem next_cut_in_value :
    let q : RetryQueue := ⟨["queue"], 9, fun _ => 0⟩
    let place : Path := ["queue", "retry-0000000000000000012.json"]
    let v : FileTree := ⟨⟨[((1, ["queue"]), .folder), (place.key, .file [0x61, 0x3a, 0x20])]⟩⟩
    (q.next v 20).1 = none ∧ (q.next v 20).2.read? place = none := by
  intro q place v
  let p : Payload := ⟨12, [("a", "b")], [1, 2]⟩
  have hblank : Blank.isBlank 'b' = false := by decide
  have hp : RetryFile.Storable p := by
    simp [p, RetryFile.Storable, RetryFile.fitsLine_iff, List.infix_cons_iff, hblank]
  obtain ⟨u, hadd, -⟩ := (usable_empty q).exists_add p
  have hplace : q.pathOf p.timestamp = place := by decide
  have hsound : v.Sound := ⟨by decide, by decide⟩
  have hcut : [0x61, 0x3a, 0x20] <+: RetryFile.render p := by decide
  have hturn : q.turn? v 20 = some (p.timestamp, q.pathOf p.timestamp) := by decide
  obtain ⟨hhead, -⟩ := next_cut hp hadd (read?_add hadd) hcut (by decide) hsound (by decide) hturn
  obtain ⟨-, hnone, hgone⟩ := hhead (by decide)
  refine ⟨hnone, ?_⟩
  rw [hgone, if_pos hplace]

/-- A body that was cut is answered as if it were whole. -/
theorem next_of_cut_body :
    let q : RetryQueue := ⟨["queue"], 9, fun _ => 0⟩
    let p : Payload := ⟨12, [("a", "b")], [1, 2]⟩
    let cut : Bytes := [0x61, 0x3a, 0x20, 0x62, 0x0d, 0x0a, 0x0d, 0x0a, 1]
    let v : FileTree := ⟨⟨[((1, ["queue"]), .folder), ((q.pathOf 12).key, .file cut)]⟩⟩
    (q.add .empty p).toOption.bind (fun u => u.read? (q.pathOf 12)) = some (cut ++ [2]) ∧
      q.next v 20 = (some { p with body := [1] }, v) := by
  decide

end RetryQueue
end SpanRelay
