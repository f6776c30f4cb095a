import Mathlib.Data.Set.Card
import SpanRelay.Proofs.Storage.RetryStore

/-!
Histories of a retry queue. Whatever was asked of it before, each call is answered as a finite map
from timestamps to payloads would answer it, and the files are those of that map.
-/
namespace SpanRelay

namespace RetryQueue

variable {q : RetryQueue} {t : FileTree}

/-! ## Calls -/

theorem after_concat (q : RetryQueue) (t : FileTree) (calls : List Call) (c : Call) :
    q.after t (calls ++ [c]) = (q.call (q.after t calls) c).2 := List.foldl_concat ..

end RetryQueue

/-! ## The map -/

/-- The stored payloads by timestamp. There are only so many timestamps that the map is finite. -/
abbrev PayloadMap := UInt64 → Option Payload

namespace PayloadMap

open RetryQueue (Call Answer)

/-- Payloads from before the age limit are left out. Nothing is from before zero. -/
def unexpired (maxAge : Nanos) (now : UInt64) (m : PayloadMap) : PayloadMap :=
  fun timestamp => if timestamp.toNat < now.toNat - maxAge then none else m timestamp

def call (maxAge : Nanos) (m : PayloadMap) : Call → PayloadMap
  | .add p => Function.update m p.timestamp (some p)
  | .next now | .sweep now => m.unexpired maxAge now
  | .remove timestamp => Function.update m timestamp none
  | .clear => fun _ => none
  | .size => m

/-- The map after some calls, from the empty one. -/
def after (maxAge : Nanos) (calls : List Call) : PayloadMap :=
  calls.foldl (call maxAge) fun _ => none

theorem after_concat (maxAge : Nanos) (calls : List Call) (c : Call) :
    after maxAge (calls ++ [c]) = (after maxAge calls).call maxAge c := List.foldl_concat ..

/-- Stored under the greatest timestamp of all; none only if the map is empty. -/
def IsNewest (m : PayloadMap) : Option Payload → Prop
  | none => ∀ timestamp, m timestamp = none
  | some p => ∃ timestamp, m timestamp = some p ∧ ∀ other, (m other).isSome → other ≤ timestamp

/-- The answer is the one that the map has for the call. -/
def Answers (maxAge : Nanos) (m : PayloadMap) : Call → Answer → Prop
  | .next now, a => ∃ p, a = .newest p ∧ (m.unexpired maxAge now).IsNewest p
  | .size, a => a = .count {timestamp | (m timestamp).isSome}.ncard
  | _, a => a = .done

end PayloadMap

namespace RetryQueue

variable {q : RetryQueue} {t : FileTree} {m : PayloadMap}

theorem kept_eq_unexpired (q : RetryQueue) (now : UInt64) (m : PayloadMap) :
    q.kept now m = m.unexpired q.maxAge now := by
  funext timestamp
  simp only [kept, PayloadMap.unexpired, decide_eq_true_iff, lt_oldestAllowed_iff]

theorem Holds.clear (h : q.Holds t m) : q.Holds (q.clear t) fun _ => none := by
  refine h.removeAll ((q.list t).map Prod.snd) (fun _ => true) fun timestamp hsome => ?_
  have hm := (mem_list h).mpr ⟨timestamp, hsome, rfl⟩
  exact iff_of_true (List.mem_map_of_mem hm) rfl

/-- The queue has as many files as the map has payloads. -/
theorem Holds.size_eq (h : q.Holds t m) :
    q.size t = {timestamp | (m timestamp).isSome}.ncard := by
  let stamp (e : Option UInt64 × Path) : UInt64 := e.1.getD 0
  have hlist : (q.list t).Nodup := by
    refine (FileTree.nodup_fileNames h.usable.sound q.folder).map fun a b hab => ?_
    simpa using congrArg Prod.snd hab
  have hstamps : ((q.list t).map stamp).Nodup := by
    refine hlist.map_on fun e he f hf hef => ?_
    obtain ⟨s, -, rfl⟩ := (mem_list h).mp he
    obtain ⟨r, -, rfl⟩ := (mem_list h).mp hf
    obtain rfl : s = r := hef
    rfl
  have hset : {timestamp | (m timestamp).isSome} = ↑((q.list t).map stamp).toFinset := by
    ext timestamp
    rw [List.coe_toFinset]
    change (m timestamp).isSome ↔ timestamp ∈ (q.list t).map stamp
    rw [List.mem_map]
    constructor
    · intro hsome
      exact ⟨_, (mem_list h).mpr ⟨timestamp, hsome, rfl⟩, rfl⟩
    · rintro ⟨e, he, rfl⟩
      obtain ⟨s, hsome, rfl⟩ := (mem_list h).mp he
      exact hsome
  rw [hset, Set.ncard_coe_finset, List.toFinset_card_of_nodup hstamps, List.length_map, size]

/-- Each call does to the files what it does to the map, and has the answer of the map. -/
theorem Holds.call (h : q.Holds t m) {c : Call}
    (hc : ∀ p, c = .add p → RetryFile.Storable p) :
    q.Holds (q.call t c).2 (m.call q.maxAge c) ∧ m.Answers q.maxAge c (q.call t c).1 := by
  cases c with
  | add p =>
    obtain ⟨u, hadd, hu⟩ := h.exists_add (hc p rfl)
    have hcall : q.call t (.add p) = (.done, u) := by simp only [RetryQueue.call, hadd]
    rw [hcall]
    exact ⟨hu, rfl⟩
  | next now =>
    obtain ⟨hu, hnewest⟩ := h.next now
    rw [kept_eq_unexpired] at hu hnewest
    refine ⟨hu, _, rfl, ?_⟩
    cases hp : (q.next t now).1 with
    | none =>
      rw [hp] at hnewest
      exact hnewest
    | some p =>
      rw [hp] at hnewest
      obtain ⟨hstored, hgreatest⟩ := hnewest
      refine ⟨p.timestamp, hstored, fun other hsome => ?_⟩
      by_contra hnot
      have hnone := hgreatest other (UInt64.not_le.mp hnot)
      rw [hnone] at hsome
      contradiction
  | remove timestamp => exact ⟨h.remove timestamp, rfl⟩
  | sweep now =>
    have hu := h.sweep now
    rw [kept_eq_unexpired] at hu
    exact ⟨hu, rfl⟩
  | clear => exact ⟨h.clear, rfl⟩
  | size => exact ⟨h, congrArg Answer.count h.size_eq⟩

theorem Holds.after (h : q.Holds t fun _ => none) {calls : List Call}
    (hc : ∀ p, Call.add p ∈ calls → RetryFile.Storable p) :
    q.Holds (q.after t calls) (PayloadMap.after q.maxAge calls) := by
  induction calls using List.reverseRecOn with
  | nil => exact h
  | append_singleton calls c ih =>
    rw [after_concat, PayloadMap.after_concat]
    have hbefore := ih fun p hp => hc p (List.mem_append_left [c] hp)
    have hlast : ∀ p, c = .add p → RetryFile.Storable p := fun p hp =>
      hc p (List.mem_append_right calls (by simp [hp]))
    exact (hbefore.call hlast).1

/-- From an empty or absent folder, every call of every history is answered as the map of stored
payloads answers it, and the files are those of the map. -/
theorem answers_after (hs : t.Sound) (hf : ∀ stage ∈ q.folder.stages, t.read? stage = none)
    (he : t.entries q.folder = []) (calls : List Call)
    (hc : ∀ p, Call.add p ∈ calls → RetryFile.Storable p) :
    q.Holds (q.after t calls) (PayloadMap.after q.maxAge calls) ∧
      ∀ before c rest, calls = before ++ c :: rest →
        (PayloadMap.after q.maxAge before).Answers q.maxAge c (q.call (q.after t before) c).1 := by
  have hempty : q.Holds t fun _ => none :=
    holds_nothing (usable_of_entries hs hf he) (list_of_entries he)
  refine ⟨hempty.after hc, ?_⟩
  rintro before c rest rfl
  have hbefore : q.Holds (q.after t before) (PayloadMap.after q.maxAge before) :=
    hempty.after fun p hp => hc p (List.mem_append_left _ hp)
  have hlast : ∀ p, c = .add p → RetryFile.Storable p := by
    rintro p rfl
    apply hc p
    simp
  exact (hbefore.call hlast).2

/-- The greatest timestamp of all has a longer name than the others, and still comes first. -/
theorem answers_after_longest_name :
    let q : RetryQueue := ⟨["queue"], 100, fun _ => 0⟩
    let longest : Payload := ⟨18446744073709551615, [("a", "b")], [1]⟩
    let before : List Call := [.add longest, .add ⟨7, [], [2]⟩]
    (q.call (q.after .empty before) (.next 50)).1 = .newest (some longest) := by
  intro q longest before
  have hblank : Blank.isBlank 'b' = false := by decide
  have hstorable : ∀ p, Call.add p ∈ before ++ [.next 50] → RetryFile.Storable p := by
    simp [before, longest, RetryFile.Storable, RetryFile.fitsLine_iff, List.infix_cons_iff, hblank]
  obtain ⟨-, hanswers⟩ := answers_after FileTree.sound_empty (usable_empty q).folder rfl
    (before ++ [.next 50]) hstorable
  obtain ⟨p, hp, hnewest⟩ := hanswers before (.next 50) [] rfl
  have hstored : (PayloadMap.after q.maxAge before).unexpired q.maxAge 50 18446744073709551615 =
      some longest := rfl
  rw [hp]
  cases p with
  | none => exact absurd (hstored.symm.trans (hnewest _)) (by simp)
  | some p =>
    obtain ⟨timestamp, htimestamp, hgreatest⟩ := hnewest
    have hle : 18446744073709551615 ≤ timestamp.toNat := hgreatest 18446744073709551615 rfl
    have hlt := timestamp.toNat_lt
    obtain rfl : timestamp = 18446744073709551615 := by
      rw [← UInt64.toNat_inj]
      change timestamp.toNat = 18446744073709551615
      omega
    rw [← htimestamp, hstored]

end RetryQueue
end SpanRelay
