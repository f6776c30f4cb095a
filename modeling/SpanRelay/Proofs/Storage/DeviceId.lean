import SpanRelay.Proofs.Calls
import SpanRelay.Proofs.Json.Cuts
import SpanRelay.Proofs.Json.Documents
import SpanRelay.Proofs.Storage.Files
import SpanRelay.Storage.Contention

/-!
Why all processes have the same device id. A contest is orderly if the processes that are about to
change the file hold the lock and each has seen what it depends on. Then nothing is ever written
over an id, and what is half written is none, so that the first id that can be read stays.
-/
namespace SpanRelay.DeviceId

/-! ## What is an id -/

theorem ofBytes?_nil : ofBytes? [] = none := by decide

theorem ofBytes?_toBytes {id : String} (h : id ≠ "") : ofBytes? (toBytes id) = some id := by
  have hsound : Json.Sound (Json.record [("id", .ofText id)]) :=
    Json.sound_record (by simp [Json.sound_ofText])
  have hfields : Json.record? ["id"] (Json.record [("id", .ofText id)]) = some [.ofText id] := by
    simp [Json.record?, Json.record]
  have htext : Json.asText? (.ofText id) = some id := by simp [Json.asText?, Json.ofText]
  unfold ofBytes? toBytes
  simp [hsound.parse?_render, hfields, htext, h]

/-- What is written in part is no id. -/
theorem ofBytes?_take {id : String} {seen : Nat} (h : seen < (toBytes id).length) :
    ofBytes? ((toBytes id).take seen) = none := by
  have hne : (toBytes id).take seen ≠ toBytes id := by
    intro heq
    have hlen := congrArg List.length heq
    rw [List.length_take] at hlen
    omega
  have hcut : Json.parse? ((toBytes id).take seen) = none :=
    Json.parse?_cut (List.take_prefix seen _) hne
  rw [ofBytes?, hcut, Option.bind_none]

theorem versionFour_ne_empty (bits : BitVec 128) : versionFour bits ≠ "" := by
  intro h
  have hchars := congrArg String.toList h
  simp [versionFour] at hchars

namespace LoadContest

variable {c d t : LoadContest} {i j : Nat} {drawn id : String} {point next : LoadPoint}
  {e : String × LoadPoint}

/-- What a process finds that reads the file. -/
def stored? (c : LoadContest) : Option String := c.file.bind ofBytes?

/-! ## Steps of a process -/

/-- What a process can do next, or what can happen to it. -/
inductive Step (c : LoadContest) (index : Nat) (drawn : String) :
    LoadPoint → LoadContest → LoadPoint → Prop where
  | find {id : String} : c.stored? = some id → Step c index drawn .reading c (.returned (some id))
  | miss : Step c index drawn .reading c .opening
  | create : Step c index drawn .opening { c with file := some (c.file.getD []) } (.locking 0)
  | lock {failed : Nat} : c.lock = none →
      Step c index drawn (.locking failed) { c with lock := some index } .readingAgain
  | wait {failed : Nat} : c.lock ≠ none → failed + 1 < lockAttempts →
      Step c index drawn (.locking failed) c (.locking (failed + 1))
  | giveUp {failed : Nat} : c.lock ≠ none → lockAttempts ≤ failed + 1 →
      Step c index drawn (.locking failed) c (.returned none)
  | findAgain {id : String} : c.stored? = some id →
      Step c index drawn .readingAgain c (.unlocking id)
  | missAgain : c.stored? = none → Step c index drawn .readingAgain c .clearing
  | clear : Step c index drawn .clearing { c with file := some [] } (.writing 0)
  | reveal {seen : Nat} (more : Nat) :
      Step c index drawn (.writing seen)
        { c with file := some ((toBytes drawn).take (seen + more)) } (.writing (seen + more))
  | finish {seen : Nat} : (toBytes drawn).length ≤ seen →
      Step c index drawn (.writing seen) c (.unlocking drawn)
  | unlock {id : String} :
      Step c index drawn (.unlocking id) { c with lock := none } (.returned (some id))
  | fail {point : LoadPoint} :
      Step c index drawn point { c with lock := if c.lock = some index then none else c.lock }
        (.returned none)

theorem step_of_advance? (h : c.advance? i drawn point = some (t, next)) :
    c.Step i drawn point t next := by
  unfold advance? at h
  split at h
  · split at h <;> obtain ⟨rfl, rfl⟩ := Prod.mk.inj (Option.some.inj h)
    next hfound => exact .find hfound
    next => exact .miss
  · obtain ⟨rfl, rfl⟩ := Prod.mk.inj (Option.some.inj h)
    exact .create
  · split at h
    next hfree =>
      obtain ⟨rfl, rfl⟩ := Prod.mk.inj (Option.some.inj h)
      exact .lock hfree
    next hheld =>
      split at h <;> obtain ⟨rfl, rfl⟩ := Prod.mk.inj (Option.some.inj h)
      next hmore => exact .wait hheld hmore
      next hlast => exact .giveUp hheld (Nat.le_of_not_lt hlast)
  · split at h <;> obtain ⟨rfl, rfl⟩ := Prod.mk.inj (Option.some.inj h)
    next hfound => exact .findAgain hfound
    next hnone => exact .missAgain hnone
  · obtain ⟨rfl, rfl⟩ := Prod.mk.inj (Option.some.inj h)
    exact .clear
  · split at h
    next hall =>
      obtain ⟨rfl, rfl⟩ := Prod.mk.inj (Option.some.inj h)
      exact .finish hall
    next => contradiction
  · obtain ⟨rfl, rfl⟩ := Prod.mk.inj (Option.some.inj h)
    exact .unlock
  · contradiction

theorem Step.processes_eq (hs : c.Step i drawn point t next) : t.processes = c.processes := by
  cases hs <;> rfl

/-- An event is a new process or a step of one that is there. -/
theorem event?_cases {event : LoadEvent} (h : c.event? event = some d) :
    (∃ drawn, event = .arrive drawn ∧
      d = { c with processes := c.processes ++ [(drawn, .reading)] }) ∨
    ∃ i drawn point t next, c.processes[i]? = some (drawn, point) ∧
      c.Step i drawn point t next ∧
      d = { t with processes := c.processes.set i (drawn, next) } := by
  cases event with
  | arrive drawn => exact .inl ⟨drawn, rfl, (Option.some.inj h).symm⟩
  | step i =>
    right
    simp only [event?] at h
    split at h
    · contradiction
    next drawn point hi =>
      obtain ⟨⟨t, next⟩, hnext, rfl⟩ := Option.map_eq_some_iff.mp h
      have hstep := step_of_advance? hnext
      exact ⟨i, drawn, point, t, next, hi, hstep, by rw [hstep.processes_eq]⟩
  | misread i =>
    right
    simp only [event?] at h
    split at h
    next drawn hi => exact ⟨i, drawn, _, c, _, hi, .miss, (Option.some.inj h).symm⟩
    next => contradiction
  | «show» i more =>
    right
    simp only [event?] at h
    split at h
    next drawn seen hi => exact ⟨i, drawn, _, _, _, hi, .reveal more, (Option.some.inj h).symm⟩
    next => contradiction
  | fail i =>
    right
    simp only [event?] at h
    split at h
    · contradiction
    · contradiction
    next drawn point _ hi => exact ⟨i, drawn, point, _, _, hi, .fail, (Option.some.inj h).symm⟩

/-! ## Orderly contests -/

/-- What a process depends on that is about to change the file, or that has an id. -/
def Fits (c : LoadContest) : String × LoadPoint → Prop
  | (_, .clearing) => c.stored? = none
  | (drawn, .writing seen) => c.file = some ((toBytes drawn).take seen)
  | (_, .unlocking id) | (_, .returned (some id)) => c.stored? = some id
  | _ => True

end LoadContest

def LoadPoint.isLocked : LoadPoint → Bool
  | .readingAgain | .clearing | .writing _ | .unlocking _ => true
  | _ => false

namespace LoadContest

variable {c d t : LoadContest} {i j : Nat} {drawn id : String} {point next : LoadPoint}
  {e : String × LoadPoint}

structure IsOrderly (c : LoadContest) : Prop where
  drawn : ∀ {i : Nat} {e}, c.processes[i]? = some e → e.1 ≠ ""
  locked : ∀ {i : Nat} {e}, c.processes[i]? = some e → e.2.isLocked = true → c.lock = some i
  fits : ∀ {i : Nat} {e}, c.processes[i]? = some e → c.Fits e

theorem isOrderly_start (file : Option Bytes) : (start file).IsOrderly where
  drawn := by simp [start]
  locked := by simp [start]
  fits := by simp [start]

/-- An id that can be read is not written over. -/
theorem Step.stored?_eq (hs : c.Step i drawn point t next) (hf : c.Fits (drawn, point))
    (hid : c.stored? = some id) : t.stored? = some id := by
  cases hs with
  | find | miss | lock | wait | giveUp | findAgain | missAgain | finish | unlock | fail => exact hid
  | create =>
    cases hfile : c.file with
    | none => simp [stored?, hfile] at hid
    | some content => simpa [stored?, hfile] using hid
  | clear => exact absurd (hf.symm.trans hid) (by simp)
  | @reveal seen more =>
    have hfile : c.file = some ((toBytes drawn).take seen) := hf
    rw [stored?, hfile] at hid
    have hall : (toBytes drawn).length ≤ seen := by
      refine Nat.le_of_not_lt fun hpart => ?_
      rw [Option.bind_some, ofBytes?_take hpart] at hid
      contradiction
    rw [List.take_of_length_le hall] at hid
    rw [stored?, List.take_of_length_le (Nat.le_add_right_of_le hall)]
    exact hid

/-- Without the lock, a process makes an empty file at most. -/
theorem Step.file_eq (hs : c.Step i drawn point t next) (hp : point.isLocked = false) :
    t.file = c.file ∨ c.file = none ∧ t.file = some [] := by
  cases hs with
  | find | miss | lock | wait | giveUp | fail => exact .inl rfl
  | create =>
    cases hfile : c.file with
    | none => exact .inr ⟨rfl, by simp⟩
    | some content => exact .inl (by simp)
  | findAgain | missAgain | clear | reveal | finish | unlock => contradiction

/-- No process takes the lock from another one. -/
theorem Step.lock_eq (hs : c.Step i drawn point t next)
    (hp : point.isLocked = true → c.lock = some i) (hne : j ≠ i) (hj : c.lock = some j) :
    t.lock = some j := by
  cases hs with
  | find | miss | create | wait | giveUp | findAgain | missAgain | clear | reveal | finish =>
    exact hj
  | lock hfree => exact absurd (hfree.symm.trans hj) (by simp)
  | unlock => exact absurd (Option.some.inj (hj.symm.trans (hp rfl))) hne
  | fail =>
    have hother : c.lock ≠ some i := by simpa [hj] using hne
    simpa [hother] using hj

theorem Step.locked (hs : c.Step i drawn point t next)
    (hp : point.isLocked = true → c.lock = some i) (hn : next.isLocked = true) :
    t.lock = some i := by
  cases hs with
  | lock => rfl
  | findAgain | missAgain | clear | reveal | finish => exact hp rfl
  | find | miss | create | wait | giveUp | unlock | fail => contradiction

/-- The process has seen itself what it depends on next. -/
theorem Step.fits (hs : c.Step i drawn point t next) (hd : drawn ≠ "")
    (hf : c.Fits (drawn, point)) : t.Fits (drawn, next) := by
  cases hs with
  | find hid | findAgain hid => exact hid
  | missAgain hnone => exact hnone
  | clear => rfl
  | reveal => rfl
  | finish hall =>
    have hfile : c.file = some ((toBytes drawn).take _) := hf
    change c.stored? = some drawn
    rw [stored?, hfile, List.take_of_length_le hall]
    exact ofBytes?_toBytes hd
  | unlock => exact hf
  | miss | create | lock | wait | giveUp | fail => trivial

/-- What another process depends on stays as it is. -/
theorem Step.fits_other (hs : c.Step i drawn point t next) (hf : c.Fits (drawn, point))
    (he : c.Fits e) (hlock : e.2.isLocked = true → point.isLocked = false) : t.Fits e := by
  obtain ⟨other, ep⟩ := e
  cases ep with
  | reading | opening | locking | readingAgain => trivial
  | unlocking id => exact hs.stored?_eq hf he
  | returned result =>
    cases result with
    | none => trivial
    | some id => exact hs.stored?_eq hf he
  | clearing =>
    have hnone : c.stored? = none := he
    change t.stored? = none
    rcases hs.file_eq (hlock rfl) with hsame | ⟨-, hempty⟩
    · rwa [stored?, hsame]
    · rw [stored?, hempty]
      exact ofBytes?_nil
  | writing seen =>
    have hfile : c.file = some ((toBytes other).take seen) := he
    rcases hs.file_eq (hlock rfl) with hsame | ⟨habsent, -⟩
    · exact hsame.trans hfile
    · rw [habsent] at hfile
      contradiction

/-- Every event keeps a contest orderly, and an id that can be read. -/
theorem IsOrderly.event? (h : c.IsOrderly) {event : LoadEvent}
    (hdrawn : ∀ drawn, event = .arrive drawn → drawn ≠ "") (hd : c.event? event = some d) :
    d.IsOrderly ∧ ∀ id, c.stored? = some id → d.stored? = some id := by
  rcases event?_cases hd with ⟨drawn, rfl, rfl⟩ | ⟨i, drawn, point, t, next, hi, hs, rfl⟩
  · refine ⟨⟨?_, ?_, ?_⟩, fun id hid => hid⟩
    · intro j e hj
      rcases getElem?_concat_eq_some_iff.mp hj with hj | ⟨-, rfl⟩
      · exact h.drawn hj
      · exact hdrawn drawn rfl
    · intro j e hj hlocked
      rcases getElem?_concat_eq_some_iff.mp hj with hj | ⟨-, rfl⟩
      · exact h.locked hj hlocked
      · contradiction
    · intro j e hj
      rcases getElem?_concat_eq_some_iff.mp hj with hj | ⟨-, rfl⟩
      · exact h.fits hj
      · trivial
  · have hlocked := h.locked hi
    have hfits := h.fits hi
    refine ⟨⟨?_, ?_, ?_⟩, fun id hid => hs.stored?_eq hfits hid⟩
    · intro j e hj
      rw [getElem?_set_of_some hi] at hj
      split at hj
      next =>
        obtain rfl := Option.some.inj hj
        have hdrawn : drawn ≠ "" := h.drawn hi
        exact hdrawn
      next => exact h.drawn hj
    · intro j e hj hlock
      rw [getElem?_set_of_some hi] at hj
      split at hj
      next hij =>
        obtain rfl := Option.some.inj hj
        exact hij ▸ hs.locked hlocked hlock
      next hij => exact hs.lock_eq hlocked (Ne.symm hij) (h.locked hj hlock)
    · intro j e hj
      rw [getElem?_set_of_some hi] at hj
      split at hj
      next =>
        obtain rfl := Option.some.inj hj
        exact hs.fits (h.drawn hi) hfits
      next hij =>
        refine hs.fits_other hfits (h.fits hj) fun hother => ?_
        -- two processes do not hold the lock at once
        rw [← Bool.not_eq_true]
        intro hpoint
        have hsame := (hlocked hpoint).symm.trans (h.locked hj hother)
        exact hij (Option.some.inj hsame)

theorem IsOrderly.run? (h : c.IsOrderly) {events : List LoadEvent}
    (hdrawn : ∀ drawn, .arrive drawn ∈ events → drawn ≠ "") (hd : c.run? events = some d) :
    d.IsOrderly ∧ ∀ id, c.stored? = some id → d.stored? = some id := by
  induction events generalizing c with
  | nil =>
    obtain rfl := Option.some.inj hd
    exact ⟨h, fun id hid => hid⟩
  | cons event events ih =>
    obtain ⟨b, hb, hd⟩ := Option.bind_eq_some_iff.mp hd
    have hfirst : ∀ drawn, event = .arrive drawn → drawn ≠ "" := fun drawn heq =>
      hdrawn drawn (heq ▸ List.mem_cons_self)
    obtain ⟨hb, hkeep⟩ := h.event? hfirst hb
    obtain ⟨hd, hrest⟩ := ih hb (fun drawn hm => hdrawn drawn (List.mem_cons_of_mem event hm)) hd
    exact ⟨hd, fun id hid => hrest id (hkeep id hid)⟩

/-! ## A process without others -/

end LoadContest

/-- The process that an event is about, unless it is a new one. -/
def LoadEvent.process? : LoadEvent → Option Nat
  | .arrive _ => none
  | .step process | .misread process | .show process _ | .fail process => some process

namespace LoadContest

variable {c d t : LoadContest} {i j : Nat} {drawn id : String} {point next : LoadPoint}
  {e : String × LoadPoint} {tree : FileTree} {path : Path} {lockFree : Bool} {fresh : BitVec 128}
  {file after : Option Bytes} {lock held : Option Nat}

/-- What a process has answered. -/
def answer? (c : LoadContest) (index : Nat) : Option String :=
  match c.processes[index]? with
  | some (_, .returned id) => id
  | _ => none

/-- Leads to another contest by events of one process. -/
def Alone (i : Nat) (c d : LoadContest) : Prop :=
  ∃ events, (∀ event ∈ events, event.process? = some i) ∧ c.run? events = some d

theorem run?_append (c : LoadContest) (events rest : List LoadEvent) :
    c.run? (events ++ rest) = (c.run? events).bind (run? · rest) := by
  induction events generalizing c with
  | nil => rfl
  | cons event events ih =>
    simp only [List.cons_append, run?, Option.bind_assoc]
    exact congrArg _ (funext fun d => ih d)

theorem Alone.refl (c : LoadContest) : Alone i c c := ⟨[], by simp, rfl⟩

theorem Alone.trans (h : Alone i c t) (h' : Alone i t d) : Alone i c d := by
  obtain ⟨events, hown, hrun⟩ := h
  obtain ⟨rest, hrest, hrun'⟩ := h'
  refine ⟨events ++ rest, fun event hm => ?_, ?_⟩
  · exact (List.mem_append.mp hm).elim (hown event) (hrest event)
  · rw [run?_append, hrun, Option.bind_some, hrun']

/-- The process has come to a point. -/
def goOn (c : LoadContest) (index : Nat) (drawn : String) (file : Option Bytes) (lock : Option Nat)
    (point : LoadPoint) : LoadContest :=
  ⟨file, lock, c.processes.set index (drawn, point)⟩

theorem goOn_self (hi : c.processes[i]? = some (drawn, point)) :
    c.goOn i drawn c.file c.lock point = c := by
  have hset : c.processes.set i (drawn, point) = c.processes := by
    refine List.ext_getElem? fun j => ?_
    rw [getElem?_set_of_some hi]
    split
    next hij => rw [← hij, hi]
    next => rfl
  rw [goOn, hset]

theorem getElem?_goOn (hi : c.processes[i]? = some e) :
    (c.goOn i drawn file lock point).processes[i]? = some (drawn, point) := by
  rw [goOn, getElem?_set_of_some hi, if_pos rfl]

theorem answer?_goOn (hi : c.processes[i]? = some e) (answer : Option String) :
    (c.goOn i drawn file lock (.returned answer)).answer? i = answer := by
  rw [answer?, getElem?_goOn hi]

theorem alone_step (hi : c.processes[i]? = some e)
    (h : (c.goOn i drawn file lock point).advance? i drawn point =
      some (c.goOn i drawn after held point, next)) :
    Alone i (c.goOn i drawn file lock point) (c.goOn i drawn after held next) := by
  refine ⟨[.step i], by simp [LoadEvent.process?], ?_⟩
  simp only [run?, event?, getElem?_goOn hi, h, Option.map_some, Option.bind_some]
  simp only [goOn, List.set_set]

/-- All of the new content comes to be seen at once. -/
theorem alone_show (hi : c.processes[i]? = some e) :
    Alone i (c.goOn i drawn file lock (.writing 0))
      (c.goOn i drawn (some (toBytes drawn)) lock (.writing (toBytes drawn).length)) := by
  refine ⟨[.show i (toBytes drawn).length], by simp [LoadEvent.process?], ?_⟩
  simp only [run?, event?, getElem?_goOn hi, Option.bind_some, Nat.zero_add, List.take_length]
  simp only [goOn, List.set_set]

theorem alone_fail (hi : c.processes[i]? = some e) (hp : ∀ id, point ≠ .returned id)
    (hheld : held = if lock = some i then none else lock) :
    Alone i (c.goOn i drawn file lock point) (c.goOn i drawn file held (.returned none)) := by
  subst hheld
  refine ⟨[.fail i], by simp [LoadEvent.process?], ?_⟩
  simp only [run?, event?, getElem?_goOn hi]
  cases point with
  | returned id => exact absurd rfl (hp id)
  | reading | opening | locking | readingAgain | clearing | writing | unlocking =>
    simp only [Option.bind_some, goOn, List.set_set]
    rfl

/-- A process gives up once it has found the lock taken often enough. -/
theorem alone_giveUp (hi : c.processes[i]? = some e) (hlock : lock ≠ none) {failed : Nat}
    (hfailed : failed < lockAttempts) :
    Alone i (c.goOn i drawn file lock (.locking failed))
      (c.goOn i drawn file lock (.returned none)) := by
  obtain ⟨left, hleft⟩ : ∃ left, failed + 1 + left = lockAttempts :=
    ⟨lockAttempts - (failed + 1), by omega⟩
  have hheld : ∀ failed, (c.goOn i drawn file lock (.locking failed)).lock ≠ none := fun _ => hlock
  induction left generalizing failed with
  | zero =>
    have hlast : ¬ failed + 1 < lockAttempts := by omega
    exact alone_step hi (by rw [advance?, if_neg (hheld failed), if_neg hlast])
  | succ left ih =>
    have hmore : failed + 1 < lockAttempts := by omega
    have hwait : Alone i (c.goOn i drawn file lock (.locking failed))
        (c.goOn i drawn file lock (.locking (failed + 1))) :=
      alone_step hi (by rw [advance?, if_neg (hheld failed), if_pos hmore])
    exact hwait.trans (ih hmore (by omega))

theorem read?_openFile {opened : FileTree} (h : openFile tree path = .ok opened) :
    opened.read? path = some ((tree.read? path).getD []) := by
  unfold openFile at h
  split at h
  · contradiction
  next folders hfolders =>
    split at h
    · contradiction
    next written hwritten =>
      obtain rfl := Except.ok.inj h
      rw [FileTree.read?_write hwritten, if_pos rfl, FileTree.read?_makeFolders hfolders]

/-- What a process leaves in the file that has the lock and finds no id. -/
theorem alone_write (hi : c.processes[i]? = some e) :
    Alone i (c.goOn i drawn file (some i) .clearing)
      (c.goOn i drawn (some (toBytes drawn)) none (.returned (some drawn))) := by
  have hclear : Alone i (c.goOn i drawn file (some i) .clearing)
      (c.goOn i drawn (some []) (some i) (.writing 0)) := alone_step hi rfl
  have hshow : Alone i (c.goOn i drawn (some []) (some i) (.writing 0))
      (c.goOn i drawn (some (toBytes drawn)) (some i) (.writing (toBytes drawn).length)) :=
    alone_show hi
  have hfinish : Alone i
      (c.goOn i drawn (some (toBytes drawn)) (some i) (.writing (toBytes drawn).length))
      (c.goOn i drawn (some (toBytes drawn)) (some i) (.unlocking drawn)) :=
    alone_step hi (by rw [advance?, if_pos (Nat.le_refl _)])
  have hunlock : Alone i (c.goOn i drawn (some (toBytes drawn)) (some i) (.unlocking drawn))
      (c.goOn i drawn (some (toBytes drawn)) none (.returned (some drawn))) := alone_step hi rfl
  exact hclear.trans (hshow.trans (hfinish.trans hunlock))

/-- A process that is alone answers what `load` answers, and leaves the same file. -/
theorem exists_load (hfile : c.file = tree.read? path) (hfree : c.lock = none ↔ lockFree = true)
    (hother : c.lock ≠ some i) (hi : c.processes[i]? = some (versionFour fresh, .reading)) :
    ∃ d, Alone i c d ∧ d.file = (load tree path lockFree fresh).2.read? path ∧
      d.answer? i = (load tree path lockFree fresh).1.toOption ∧ d.lock = c.lock := by
  have hstart := goOn_self hi
  rw [hfile] at hstart
  unfold load
  cases hfound : (tree.read? path).bind ofBytes? with
  | some id =>
    have hread : Alone i (c.goOn i (versionFour fresh) (tree.read? path) c.lock .reading)
        (c.goOn i (versionFour fresh) (tree.read? path) c.lock (.returned (some id))) :=
      alone_step hi (by simp only [advance?, goOn, hfound])
    rw [hstart] at hread
    exact ⟨_, hread, rfl, answer?_goOn hi _, rfl⟩
  | none =>
    have hread : Alone i (c.goOn i (versionFour fresh) (tree.read? path) c.lock .reading)
        (c.goOn i (versionFour fresh) (tree.read? path) c.lock .opening) :=
      alone_step hi (by simp only [advance?, goOn, hfound])
    rw [hstart] at hread
    dsimp only
    cases hopen : openFile tree path with
    | error fault =>
      have hfail : Alone i (c.goOn i (versionFour fresh) (tree.read? path) c.lock .opening)
          (c.goOn i (versionFour fresh) (tree.read? path) c.lock (.returned none)) :=
        alone_fail hi nofun (by rw [if_neg hother])
      exact ⟨_, hread.trans hfail, rfl, answer?_goOn hi _, rfl⟩
    | ok opened =>
      have hcontent := read?_openFile hopen
      have hcreate : Alone i (c.goOn i (versionFour fresh) (tree.read? path) c.lock .opening)
          (c.goOn i (versionFour fresh) (opened.read? path) c.lock (.locking 0)) := by
        rw [hcontent]
        exact alone_step hi rfl
      have hreach := hread.trans hcreate
      dsimp only
      cases lockFree with
      | false =>
        have hheld : c.lock ≠ none := fun h => by simpa using hfree.mp h
        exact ⟨_, hreach.trans (alone_giveUp hi hheld (by decide)), rfl, answer?_goOn hi _, rfl⟩
      | true =>
        have hnone : c.lock = none := hfree.mpr rfl
        have htake : Alone i
            (c.goOn i (versionFour fresh) (opened.read? path) c.lock (.locking 0))
            (c.goOn i (versionFour fresh) (opened.read? path) (some i) .readingAgain) := by
          rw [hnone]
          exact alone_step hi rfl
        have hreach := hreach.trans htake
        simp only [Bool.not_true, Bool.false_eq_true, if_false]
        cases hagain : (opened.read? path).bind ofBytes? with
        | some id =>
          have hread : Alone i
              (c.goOn i (versionFour fresh) (opened.read? path) (some i) .readingAgain)
              (c.goOn i (versionFour fresh) (opened.read? path) (some i) (.unlocking id)) :=
            alone_step hi (by simp only [advance?, goOn, hagain])
          have hunlock : Alone i
              (c.goOn i (versionFour fresh) (opened.read? path) (some i) (.unlocking id))
              (c.goOn i (versionFour fresh) (opened.read? path) none (.returned (some id))) :=
            alone_step hi rfl
          exact ⟨_, hreach.trans (hread.trans hunlock), rfl, answer?_goOn hi _, hnone.symm⟩
        | none =>
          have hread : Alone i
              (c.goOn i (versionFour fresh) (opened.read? path) (some i) .readingAgain)
              (c.goOn i (versionFour fresh) (opened.read? path) (some i) .clearing) :=
            alone_step hi (by simp only [advance?, goOn, hagain])
          have hreach := hreach.trans hread
          dsimp only
          cases hwrite : opened.write path (toBytes (versionFour fresh)) with
          | error fault =>
            have hfail : Alone i
                (c.goOn i (versionFour fresh) (opened.read? path) (some i) .clearing)
                (c.goOn i (versionFour fresh) (opened.read? path) none (.returned none)) :=
              alone_fail hi nofun (by rw [if_pos rfl])
            exact ⟨_, hreach.trans hfail, rfl, answer?_goOn hi _, hnone.symm⟩
          | ok written =>
            have hwritten := FileTree.read?_write hwrite path
            rw [if_pos rfl] at hwritten
            exact ⟨_, hreach.trans (alone_write hi), hwritten.symm, answer?_goOn hi _, hnone.symm⟩

/-! ## All processes -/

theorem IsOrderly.stored?_of_answer? (h : c.IsOrderly) (ha : c.answer? i = some id) :
    c.stored? = some id := by
  unfold answer? at ha
  split at ha
  next drawn answer hi =>
    subst ha
    exact h.fits hi
  next => contradiction

/-- In every order of the steps of any number of processes, of which some give up, fail or die, all
that answer an id answer the same one. An id that the file held before is that one, and one that was
answered is in the file from then on. -/
theorem answers_agree {events rest : List LoadEvent}
    (hdrawn : ∀ drawn, .arrive drawn ∈ events ++ rest → drawn ≠ "")
    (hc : (start file).run? events = some c) (hd : c.run? rest = some d) :
    (∀ i j x y, c.answer? i = some x → d.answer? j = some y → x = y) ∧
    (∀ id, file.bind ofBytes? = some id → ∀ i x, d.answer? i = some x → x = id) ∧
    ∀ i x, c.answer? i = some x → d.file.bind ofBytes? = some x := by
  obtain ⟨hcs, hstart⟩ := (isOrderly_start file).run?
    (fun drawn hm => hdrawn drawn (List.mem_append_left rest hm)) hc
  obtain ⟨hds, hkeep⟩ :=
    hcs.run? (fun drawn hm => hdrawn drawn (List.mem_append_right events hm)) hd
  have hlater : ∀ i x, c.answer? i = some x → d.stored? = some x := fun i x hx =>
    hkeep x (hcs.stored?_of_answer? hx)
  refine ⟨fun i j x y hx hy => ?_, fun id hid i x hx => ?_, hlater⟩
  · exact Option.some.inj ((hlater i x hx).symm.trans (hds.stored?_of_answer? hy))
  · have hfirst : d.stored? = some id := hkeep id (hstart id hid)
    exact Option.some.inj ((hds.stored?_of_answer? hx).symm.trans hfirst)

/-- The file holds no id. One process dies while it writes, when another one has found the lock
taken and a third one reads what is written so far; the second one then writes over it. -/
theorem answers_agree_half_written :
    ∃ c d,
      (start (some [0x7b, 0x22])).run?
        [.arrive (versionFour 1), .arrive (versionFour 2), .arrive (versionFour 3), .step 0,
          .step 0, .step 0, .step 0, .step 0, .step 1, .show 0 5, .step 1, .step 1, .step 2,
          .show 0 3, .fail 0, .step 1, .step 1, .step 1, .show 1 4, .step 2, .step 2,
          .show 1 41, .step 1, .step 1] = some c ∧
      c.run?
        [.arrive (versionFour 4), .misread 3, .step 2, .step 2, .step 3, .fail 3, .step 2,
          .arrive (versionFour 5), .step 4] = some d ∧
      c.answer? 1 = some (versionFour 2) ∧ d.answer? 2 = some (versionFour 2) ∧
      d.answer? 4 = some (versionFour 2) ∧ d.file.bind ofBytes? = some (versionFour 2) := by
  let before : List LoadEvent :=
    [.arrive (versionFour 1), .arrive (versionFour 2), .arrive (versionFour 3), .step 0,
      .step 0, .step 0, .step 0, .step 0, .step 1, .show 0 5, .step 1, .step 1, .step 2,
      .show 0 3, .fail 0, .step 1, .step 1, .step 1, .show 1 4, .step 2, .step 2,
      .show 1 41, .step 1, .step 1]
  let after : List LoadEvent :=
    [.arrive (versionFour 4), .misread 3, .step 2, .step 2, .step 3, .fail 3, .step 2,
      .arrive (versionFour 5), .step 4]
  have hrun : (((start (some [0x7b, 0x22])).run? before).bind fun c => (c.run? after).map fun d =>
      (c.answer? 1, (d.answer? 2).isSome, (d.answer? 4).isSome)) =
        some (some (versionFour 2), true, true) := by
    decide +kernel
  obtain ⟨c, hc, hrun⟩ := Option.bind_eq_some_iff.mp hrun
  obtain ⟨d, hd, hrun⟩ := Option.map_eq_some_iff.mp hrun
  simp only [Prod.mk.injEq] at hrun
  obtain ⟨hfirst, hsecond, hthird⟩ := hrun
  have hdrawn : ∀ drawn, .arrive drawn ∈ before ++ after → drawn ≠ "" := by
    intro drawn hm
    have hbits : ∃ bits, drawn = versionFour bits := by
      simp only [before, after, List.cons_append, List.nil_append, List.mem_cons, reduceCtorEq,
        LoadEvent.arrive.injEq, false_or, or_false, List.not_mem_nil] at hm
      rcases hm with h | h | h | h | h <;> exact ⟨_, h⟩
    obtain ⟨bits, rfl⟩ := hbits
    exact versionFour_ne_empty bits
  obtain ⟨hsame, -, hstays⟩ := answers_agree hdrawn hc hd
  obtain ⟨x, hx⟩ := Option.isSome_iff_exists.mp hsecond
  obtain ⟨y, hy⟩ := Option.isSome_iff_exists.mp hthird
  have hxb : versionFour 2 = x := hsame 1 2 _ _ hfirst hx
  have hyb : versionFour 2 = y := hsame 1 4 _ _ hfirst hy
  exact ⟨c, d, hc, hd, hfirst, hxb ▸ hx, hyb ▸ hy, hstays 1 _ hfirst⟩

end LoadContest
end SpanRelay.DeviceId
