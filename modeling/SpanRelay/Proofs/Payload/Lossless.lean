import Mathlib.Data.List.Forall2
import SpanRelay.Payload.Encoder
import SpanRelay.Payload.Reports
import SpanRelay.Proofs.Json.Documents
import SpanRelay.Proofs.Number.DecimalText
import SpanRelay.Proofs.Platform.StoredGzip

/-!
An encoded batch read back. The reader gets every field of every span in order; two batches have the
same body exactly if they differ in nothing but doubles that are not finite, times beyond the last
one, and whether an end at the start was recorded.
-/
namespace SpanRelay

/-! ## What can be told -/

namespace AttributeValue

mutual

/-- The value with every double that is not finite replaced by the same one. -/
def written : AttributeValue → AttributeValue
  | .double x => .double (if x.isFinite then x else .nan)
  | .array items => .array (writtenAll items)
  | v => v

def writtenAll : List AttributeValue → List AttributeValue
  | [] => []
  | v :: rest => v.written :: writtenAll rest

end

end AttributeValue

def Attributes.written (a : Attributes) : List (String × AttributeValue) :=
  a.entries.map fun e => (e.1, e.2.written)

theorem SpanKind.ordinal_inj {k l : SpanKind} : k.ordinal = l.ordinal ↔ k = l := by
  cases k <;> cases l <;> decide

namespace Clock

/-- The last nanosecond that can be written. -/
def lastNanos : Nat := 2 ^ 64 - 1

/-- The wall time of a tick, before it is cut to what can be written. -/
def nanos (c : Clock) (t : Ticks) : Nat := c.anchor.toNat + t.toNat

theorem toNat_toUnixNanos (c : Clock) (t : Ticks) :
    (c.toUnixNanos t).toNat = min (c.nanos t) lastNanos := by
  simp [toUnixNanos, saturatingSum, nanos, lastNanos]

end Clock

namespace Wire

def Report.of (c : Clock) (s : Span) : Report where
  name := s.name
  kind := s.kind.ordinal
  span := s.context.span
  trace := s.context.trace
  parent? := if s.parent = 0 then none else some s.parent
  start := min (c.nanos s.start) Clock.lastNanos
  finish := min (c.nanos (s.endTime?.getD s.start)) Clock.lastNanos
  attributes := s.attributes.written
  dropped? := if s.dropped = 0 then none else some s.dropped.toNat

open Json DecimalText

/-! ## Members -/

/-- Items that can each be read are read as a list. -/
theorem mapM_map_some {α β γ : Type} {w : α → β} {r : β → Option γ} {v : α → γ}
    (h : ∀ a, r (w a) = some (v a)) (items : List α) :
    (items.map w).mapM r = some (items.map v) := by
  have hread : r ∘ w = fun a => pure (v a) := funext h
  rw [List.mapM_map, hread, List.mapM_pure]
  rfl

theorem fields?_record {members : List (String × Json)} (h : (members.map Prod.fst).Nodup) :
    (record members).fields? = some members := by
  have hnames : ∀ m : String × Json, (text? (quoted m.1)).map (·, m.2) = some m := by simp
  have hread := mapM_map_some (w := fun m : String × Json => (quoted m.1, m.2))
    (r := fun m => (text? m.1).map (·, m.2)) hnames members
  simp only [record, fields?, hread, List.map_id', Option.filter_some, h, decide_true, if_true]

theorem member?_record {members : List (String × Json)} (h : (members.map Prod.fst).Nodup)
    (name : String) : (record members).member? name = members.lookup name := by
  rw [member?, fields?_record h, Option.bind_some]

@[simp] theorem asText?_ofText (s : String) : (ofText s).asText? = some s := text?_quoted s

/-! ## Texts of numbers -/

theorem natural?_toDigits (n : Nat) : natural? (Nat.toDigits 10 n) = some n := by
  have hall : (Nat.toDigits 10 n).all Char.isDigit = true :=
    List.all_eq_true.mpr (digits_toDigits n)
  simp [natural?, hall, Nat.toDigits_ne_nil]

theorem integer?_integerText (n : Int64) :
    integer? (AttributeValue.integerText n.toInt) = some n := by
  have hlow := n.le_toInt
  have hhigh := n.toInt_lt
  unfold AttributeValue.integerText
  split
  next hneg =>
    have hsize : n.toInt.natAbs ≤ 1 <<< 63 := by simp; omega
    have hint : -(n.toInt.natAbs : ℤ) = n.toInt := by omega
    rw [integer?, natural?_toDigits, Option.filter_some, if_pos (by simpa using hsize),
      Option.map_some, hint, Int64.ofInt_toInt]
  next hneg =>
    have hsize : n.toInt.natAbs < 1 <<< 63 := by simp; omega
    have hint : (n.toInt.natAbs : ℤ) = n.toInt := by omega
    unfold integer?
    split
    next digits heq =>
      have hminus := digits_toDigits n.toInt.natAbs '-' (heq ▸ List.mem_cons_self)
      exact absurd hminus (by decide)
    next =>
      rw [natural?_toDigits, Option.filter_some, if_pos (by simpa using hsize), Option.map_some,
        ← Int64.ofInt_eq_ofNat, hint, Int64.ofInt_toInt]

theorem hex?_padded {width n : Nat} (h : n < 16 ^ width) :
    hex? width (Hex.padded width n) = some n := by
  have hdigit : ∀ k < 16, isHexDigit (Nat.digitChar k) = true := by decide
  have hall : (Hex.padded width n).all isHexDigit = true :=
    List.all_eq_true.mpr (Hex.forall_padded hdigit width n)
  rw [hex?, if_pos ⟨Hex.length_padded width n, hall⟩, Hex.value_padded, Nat.mod_eq_of_lt h]

@[simp] theorem spanId?_text (s : SpanId) :
    spanId? (ofText (String.ofList (SpanId.text s))) = some s := by
  have hhex : hex? 16 (Hex.padded 16 s.toNat) = some s.toNat := hex?_padded s.isLt
  simp [spanId?, SpanId.text, hhex]

@[simp] theorem traceId?_text (t : TraceId) :
    traceId? (ofText (String.ofList (TraceId.text t))) = some t := by
  have hhex : hex? 32 (Hex.padded 32 t.toNat) = some t.toNat := hex?_padded t.isLt
  simp [traceId?, TraceId.text, hhex]

@[simp] theorem count?_ofNat (n : Nat) : count? (ofNat n) = some n := by
  simp [count?, ofNat, toString?_toDigits, natural?_toDigits]

@[simp] theorem time?_time (c : Clock) (t : Ticks) :
    time? (time c t) = some (min (c.nanos t) Clock.lastNanos) := by
  simp [time?, time, decimal, natural?_toDigits, Clock.toNat_toUnixNanos]

theorem double?_ofDouble (x : Binary64) :
    double? (ofDouble x) = some (if x.isFinite then x else .nan) := by
  unfold ofDouble
  split
  next hx => simp [double?, toString?_layout Layout.json hx, parse?_text Layout.json hx]
  next => rfl

/-! ## Attributes -/

mutual

theorem value?_value (v : AttributeValue) : value? (value v) = some v.written := by
  cases v with
  | text s => simp [value, record, value?, ofText, asText?, AttributeValue.written]
  | int n =>
    simp [value, record, value?, ofText, asText?, integer?_integerText, AttributeValue.written]
  | double x =>
    have hread := double?_ofDouble x
    unfold ofDouble at hread
    split at hread
    next hx => simpa [value, record, ofDouble, hx, value?, AttributeValue.written] using hread
    next hx => simpa [value, record, ofDouble, hx, value?, AttributeValue.written] using hread
  | bool b => simp [value, record, value?, asBool?, AttributeValue.written]
  | array items =>
    have hitems := values?_values items
    simp [value, record, value?, hitems, AttributeValue.written]

theorem values?_values (items : List AttributeValue) :
    values? (values items) = some (AttributeValue.writtenAll items) := by
  cases items with
  | nil => simp [values, values?, AttributeValue.writtenAll]
  | cons v rest =>
    have hv := value?_value v
    have hrest := values?_values rest
    simp [values, values?, hv, hrest, AttributeValue.writtenAll]

end

theorem attribute?_entry (e : String × AttributeValue) :
    attribute? (entry e) = some (e.1, e.2.written) := by
  simp [attribute?, entry, member?_record, List.lookup_cons, value?_value]

@[simp] theorem attributes?_attributes (a : Attributes) :
    attributes? (attributes a) = some a.written :=
  mapM_map_some attribute?_entry a.entries

/-! ## Spans -/

theorem report?_span (c : Clock) (s : Span) : report? (span c s) = some (Report.of c s) := by
  -- the parent and the count may each be left out, which makes four lists of members
  by_cases hparent : s.parent = 0#64 <;> by_cases hdropped : s.dropped = 0 <;>
    simp [report?, optional?, span, hparent, hdropped, member?_record, List.lookup_cons, Report.of,
      endOf]

def Account.of (c : Clock) (spans : List Span) (resource : Attributes) : Account where
  resource := resource.written
  reports := spans.map (Report.of c)

theorem account?_document (c : Clock) (spans : List Span) (resource : Attributes) :
    account? (document c spans resource) = some (Account.of c spans resource) := by
  have hreports := mapM_map_some (report?_span c) spans
  simp [account?, document, member?_record, List.lookup_cons, single?, asList?, hreports, Account.of]

/-! ## Literals -/

mutual

theorem sound_value (v : AttributeValue) : Sound (value v) := by
  cases v with
  | text s => exact sound_record (by simp [sound_ofText])
  | int n => exact sound_record (by simp [sound_ofText])
  | double x => exact sound_record (by simp [sound_ofDouble])
  | bool b => exact sound_record (by simp [Sound.bool])
  | array items =>
    have hitems := Sound.array (sound_values items)
    have hlist : Sound (record [("values", .array (values items))]) :=
      sound_record (by simp [hitems])
    exact sound_record (by simp [hlist])

theorem sound_values (items : List AttributeValue) : ∀ j ∈ values items, Sound j := by
  cases items with
  | nil => simp [values]
  | cons v rest =>
    rw [values, List.forall_mem_cons]
    exact ⟨sound_value v, sound_values rest⟩

end

theorem sound_attributes (a : Attributes) : Sound (attributes a) := by
  refine .array fun j hj => ?_
  obtain ⟨e, -, rfl⟩ := List.mem_map.mp hj
  exact sound_record (by simp [sound_ofText, sound_value])

theorem sound_span (c : Clock) (s : Span) : Sound (span c s) := by
  refine sound_record ?_
  split_ifs <;> simp [time, sound_ofText, sound_ofNat, sound_attributes]

theorem sound_document (c : Clock) (spans : List Span) (resource : Attributes) :
    Sound (document c spans resource) := by
  have hspans : Sound (record [("spans", .array (spans.map (span c)))]) :=
    sound_record (by simpa using Sound.array (List.forall_mem_map.mpr fun s _ => sound_span c s))
  have hresource : Sound (record [("attributes", attributes resource)]) :=
    sound_record (by simp [sound_attributes])
  have hbatch : Sound (record [("resource", record [("attributes", attributes resource)]),
      ("scopeSpans", .array [record [("spans", .array (spans.map (span c)))]])]) :=
    sound_record (by simpa [hresource] using Sound.array (List.forall_mem_singleton.mpr hspans))
  exact sound_record (by simpa using Sound.array (List.forall_mem_singleton.mpr hbatch))

/-! ## What is lost -/

mutual

theorem value_written (v : AttributeValue) : value v.written = value v := by
  cases v with
  | double x =>
    rw [AttributeValue.written]
    split
    next => rfl
    next hx =>
      have hnan : Binary64.nan.isFinite = false := by decide
      simp [value, ofDouble, hx, hnan]
  | array items => rw [AttributeValue.written, value, value, values_written items]
  | _ => simp [AttributeValue.written]

theorem values_written (items : List AttributeValue) :
    values (AttributeValue.writtenAll items) = values items := by
  cases items with
  | nil => rw [AttributeValue.writtenAll]
  | cons v rest =>
    rw [AttributeValue.writtenAll, values, values, value_written v, values_written rest]

end

theorem attributes_eq (a : Attributes) : attributes a = .array (a.written.map entry) := by
  have hentry : ∀ e : String × AttributeValue, entry (e.1, e.2.written) = entry e := by
    simp [entry, value_written]
  simp [attributes, Attributes.written, hentry]

end Wire

namespace Clock

/-- Ticks that are written as the same time: none is lost, or both are beyond the last. -/
def SameTime (c : Clock) (t u : Ticks) : Prop :=
  t = u ∨ (lastNanos ≤ c.nanos t ∧ lastNanos ≤ c.nanos u)

theorem sameTime_iff {c : Clock} {t u : Ticks} :
    min (c.nanos t) lastNanos = min (c.nanos u) lastNanos ↔ c.SameTime t u := by
  unfold SameTime nanos
  rw [← UInt64.toNat_inj]
  omega

end Clock

namespace Wire

/-- Spans that are told apart by no document. -/
structure Alike (c : Clock) (s t : Span) : Prop where
  name : s.name = t.name
  kind : s.kind = t.kind
  context : s.context = t.context
  parent : s.parent = t.parent
  start : c.SameTime s.start t.start
  finish : c.SameTime (s.endTime?.getD s.start) (t.endTime?.getD t.start)
  attributes : s.attributes.written = t.attributes.written
  dropped : s.dropped = t.dropped

/-- What is left out when it is zero is told apart all the same. -/
theorem omitted_inj {α β : Type} [DecidableEq α] {f : α → β} (hf : f.Injective) {zero a b : α} :
    (if a = zero then none else some (f a)) = (if b = zero then none else some (f b)) ↔ a = b := by
  constructor
  · intro h
    split_ifs at h with ha hb
    · rw [ha, hb]
    · exact hf (Option.some.inj h)
  · rintro rfl
    rfl

theorem report_eq_iff {c : Clock} {s t : Span} : Report.of c s = Report.of c t ↔ Alike c s t := by
  have hparent : (if s.parent = 0 then none else some s.parent) =
      (if t.parent = 0 then none else some t.parent) ↔ s.parent = t.parent :=
    omitted_inj Function.injective_id
  have hdropped : (if s.dropped = 0 then none else some s.dropped.toNat) =
      (if t.dropped = 0 then none else some t.dropped.toNat) ↔ s.dropped = t.dropped :=
    omitted_inj fun _ _ => UInt32.toNat_inj.mp
  rw [Report.of, Report.of, Report.mk.injEq, SpanKind.ordinal_inj, hparent, hdropped,
    Clock.sameTime_iff, Clock.sameTime_iff]
  constructor
  · rintro ⟨hname, hkind, hspan, htrace, hparent, hstart, hfinish, hattributes, hdropped⟩
    exact ⟨hname, hkind, congrArg₂ SpanContext.mk htrace hspan, hparent, hstart, hfinish,
      hattributes, hdropped⟩
  · rintro ⟨hname, hkind, hcontext, hparent, hstart, hfinish, hattributes, hdropped⟩
    exact ⟨hname, hkind, congrArg _ hcontext, congrArg _ hcontext, hparent, hstart, hfinish,
      hattributes, hdropped⟩

theorem time_eq {c : Clock} {t u : Ticks} (h : c.SameTime t u) : time c t = time c u := by
  rw [time, time, Clock.toNat_toUnixNanos, Clock.toNat_toUnixNanos, Clock.sameTime_iff.mpr h]

theorem span_eq_iff {c : Clock} {s t : Span} : span c s = span c t ↔ Alike c s t := by
  constructor
  · intro h
    have hread : report? (span c s) = report? (span c t) := congrArg report? h
    rw [report?_span, report?_span] at hread
    exact report_eq_iff.mp (Option.some.inj hread)
  · rintro ⟨hname, hkind, hcontext, hparent, hstart, hfinish, hattributes, hdropped⟩
    have hend : time c (endOf s) = time c (endOf t) := time_eq hfinish
    simp only [span, hname, hkind, hcontext, hparent, time_eq hstart, hend, attributes_eq,
      hattributes, hdropped]

theorem map_eq_map_iff {α β : Type} {f : α → β} {r : α → α → Prop}
    (h : ∀ a b, f a = f b ↔ r a b) {items others : List α} :
    items.map f = others.map f ↔ List.Forall₂ r items others := by
  rw [← List.forall₂_eq_eq_eq, List.forall₂_map_left_iff, List.forall₂_map_right_iff]
  simp only [h]

theorem document_eq_iff {c : Clock} {spans others : List Span} {resource other : Attributes} :
    document c spans resource = document c others other ↔
      resource.written = other.written ∧ List.Forall₂ (Alike c) spans others := by
  constructor
  · -- the same document is read as the same account
    intro h
    have hread := congrArg account? h
    rw [account?_document, account?_document, Option.some_inj, Account.of, Account.of,
      Account.mk.injEq, map_eq_map_iff fun _ _ => report_eq_iff] at hread
    exact hread
  · rintro ⟨hresource, hspans⟩
    have hlist : spans.map (span c) = others.map (span c) :=
      (map_eq_map_iff fun _ _ => span_eq_iff).mpr hspans
    rw [document, document, hlist, attributes_eq, attributes_eq, hresource]

end Wire

namespace Encoder

/-- A body is got back from whatever payload it was put into, by whoever can unpack it. -/
theorem rawBody?_finish {e : Encoder} {unpack : Bytes → Option Bytes}
    (hunpack : e.codec.UnpackedBy unpack) (now : UInt64) (raw : Bytes) (sampling : Option String) :
    (e.finish now raw sampling).rawBody? unpack = some raw := by
  have hnames : ∀ name ∈ ["Bugsnag-Api-Key", "Content-Type", "Content-Length", "Bugsnag-Integrity",
      "Bugsnag-Span-Sampling"],
      (Payload.asciiLower name == Payload.asciiLower "Content-Encoding") = false := by decide
  simp only [List.forall_mem_cons] at hnames
  obtain ⟨hkey, htype, hlength, hdigest, hsampling, -⟩ := hnames
  have hrest : ∀ body, (Payload.headersOf e.codec body ++
      (sampling.map fun s => ("Bugsnag-Span-Sampling", s)).toList).find?
        (fun h => Payload.asciiLower h.1 == Payload.asciiLower "Content-Encoding") = none := by
    intro body
    cases sampling <;> simp [Payload.headersOf, hlength, hdigest, hsampling]
  unfold Payload.rawBody? Payload.isPacked Payload.header? finish
  by_cases hpacks : packingThreshold ≤ raw.length
  · simp [hpacks, hkey, htype, hunpack raw]
  · simp [hpacks, hkey, htype, hrest]

theorem parse?_rawBody (c : Clock) (spans : List Span) (resource : Attributes) :
    Json.parse? (rawBody c spans resource) = some (Wire.document c spans resource) :=
  (Wire.sound_document c spans resource).parse?_render

/-- The body of a batch before it is packed is a document from which everything is read back, in
order, and two batches have the same body exactly if they are alike in all that a document tells.
Whoever can unpack what the encoder packs gets this body out of the payload. -/
theorem lossless_encode (c : Clock) (spans : List Span) (resource : Attributes) :
    (∃ document, Json.parse? (rawBody c spans resource) = some document ∧
      Wire.account? document = some (Wire.Account.of c spans resource)) ∧
    (∀ (others : List Span) (other : Attributes),
      rawBody c others other = rawBody c spans resource ↔
        other.written = resource.written ∧ List.Forall₂ (Wire.Alike c) others spans) ∧
    ∀ (e : Encoder) (unpack : Bytes → Option Bytes), e.codec.UnpackedBy unpack →
      (e.encode c spans resource).rawBody? unpack = some (rawBody c spans resource) := by
  refine ⟨⟨_, parse?_rawBody c spans resource, Wire.account?_document c spans resource⟩,
    fun others other => ?_, fun e unpack hunpack => rawBody?_finish hunpack ..⟩
  rw [← Wire.document_eq_iff]
  constructor
  · intro h
    have hparse := parse?_rawBody c others other
    rw [h, parse?_rawBody c spans resource] at hparse
    exact (Option.some.inj hparse).symm
  · intro h
    rw [rawBody, rawBody, h]

/-- The body of a span is packed; it is unpacked again, and is not that of no span. -/
theorem lossless_encode_of_one :
    let e : Encoder := ⟨"key", true, .standard⟩
    let spans : List Span := [.create ⟨7, 9⟩ 0 .internal .custom 5 false none .standard "a"]
    128 ≤ (rawBody default spans .empty).length ∧
      (e.encode default spans .empty).rawBody? StoredGzip.unpack? =
        some (rawBody default spans .empty) ∧
      rawBody default [] .empty ≠ rawBody default spans .empty := by
  intro e spans
  obtain ⟨-, hsame, hunpacked⟩ := lossless_encode default spans .empty
  refine ⟨by decide +kernel, hunpacked e _ Codec.unpackedBy_standard, fun heq => ?_⟩
  have hlength : 0 = 1 := ((hsame [] .empty).mp heq).2.length_eq
  contradiction

end Encoder
end SpanRelay
