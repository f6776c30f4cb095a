/-!
Finite maps that remember the order in which their keys came in. Replacing a value keeps the slot
of its key; a key that is erased and comes back goes to the end. `get?` is the view through which
the operations are described.
-/
universe u v

namespace SpanRelay

structure Dictionary (κ : Type u) (ν : Type v) where
  entries : List (κ × ν)
  deriving DecidableEq, Repr

namespace Dictionary

variable {κ : Type u} {ν : Type v}

def empty : Dictionary κ ν := ⟨[]⟩

instance : Inhabited (Dictionary κ ν) := ⟨empty⟩

def size (d : Dictionary κ ν) : Nat := d.entries.length

def isEmpty (d : Dictionary κ ν) : Bool := d.entries.isEmpty

def keys (d : Dictionary κ ν) : List κ := d.entries.map Prod.fst

def values (d : Dictionary κ ν) : List ν := d.entries.map Prod.snd

inductive Call (κ : Type u) (ν : Type v) where
  | insert (key : κ) (value : ν)
  | remove (key : κ)

/-- The key that a call is about. -/
def Call.key : Call κ ν → κ
  | insert key _ => key
  | remove key => key

variable [DecidableEq κ]

def get? (d : Dictionary κ ν) (key : κ) : Option ν :=
  (d.entries.find? fun e => e.1 = key).map Prod.snd

def contains (d : Dictionary κ ν) (key : κ) : Bool := d.entries.any fun e => e.1 = key

def putEntry (key : κ) (value : ν) : List (κ × ν) → Option ν × List (κ × ν)
  | [] => (none, [(key, value)])
  | (k, old) :: rest =>
    if k = key then (some old, (k, value) :: rest)
    else ((putEntry key value rest).1, (k, old) :: (putEntry key value rest).2)

/-- Sets a key and answers with the value that it had. -/
def exchange (d : Dictionary κ ν) (key : κ) (value : ν) : Option ν × Dictionary κ ν :=
  ((putEntry key value d.entries).1, ⟨(putEntry key value d.entries).2⟩)

def insert (d : Dictionary κ ν) (key : κ) (value : ν) : Dictionary κ ν := (d.exchange key value).2

def dropEntry (key : κ) : List (κ × ν) → Option ν × List (κ × ν)
  | [] => (none, [])
  | (k, old) :: rest =>
    if k = key then (some old, rest) else ((dropEntry key rest).1, (k, old) :: (dropEntry key rest).2)

/-- Erases a key and answers with the value that it had. -/
def take (d : Dictionary κ ν) (key : κ) : Option ν × Dictionary κ ν :=
  ((dropEntry key d.entries).1, ⟨(dropEntry key d.entries).2⟩)

def erase (d : Dictionary κ ν) (key : κ) : Dictionary κ ν := (d.take key).2

def ofList (pairs : List (κ × ν)) : Dictionary κ ν :=
  pairs.foldl (fun d e => d.insert e.1 e.2) empty

/-- Carries out a call and answers with the value that the key had. -/
def call (d : Dictionary κ ν) : Call κ ν → Option ν × Dictionary κ ν
  | .insert key value => d.exchange key value
  | .remove key => d.take key

def after (calls : List (Call κ ν)) : Dictionary κ ν :=
  calls.foldl (fun d c => (d.call c).2) empty

/-! ## Operations through the view -/

@[simp] theorem get?_empty (key : κ) : (empty : Dictionary κ ν).get? key = none := rfl

theorem get?_cons (k key : κ) (value : ν) (rest : List (κ × ν)) :
    get? ⟨(k, value) :: rest⟩ key = if k = key then some value else get? ⟨rest⟩ key := by
  by_cases h : k = key <;> simp [get?, h]

theorem contains_eq_isSome (d : Dictionary κ ν) (key : κ) :
    d.contains key = (d.get? key).isSome := by
  cases d with
  | mk entries =>
    induction entries with
    | nil => rfl
    | cons e rest ih =>
      obtain ⟨k, value⟩ := e
      rw [get?_cons]
      by_cases h : k = key
      · simp [contains, h]
      · simpa [contains, h] using ih

theorem fst_putEntry (key : κ) (value : ν) (entries : List (κ × ν)) :
    (putEntry key value entries).1 = get? ⟨entries⟩ key := by
  induction entries with
  | nil => rfl
  | cons e rest ih =>
    obtain ⟨k, old⟩ := e
    rw [get?_cons]
    by_cases h : k = key <;> simp [putEntry, h, ih]

theorem get?_insert (d : Dictionary κ ν) (key other : κ) (value : ν) :
    (d.insert key value).get? other = if key = other then some value else d.get? other := by
  cases d with
  | mk entries =>
    show get? ⟨(putEntry key value entries).2⟩ other = _
    induction entries with
    | nil => simp [putEntry, get?]
    | cons e rest ih =>
      obtain ⟨k, old⟩ := e
      by_cases h : k = key
      · subst h
        by_cases ho : k = other <;> simp [putEntry, get?_cons, ho]
      · simp only [putEntry, h, if_false, get?_cons]
        rw [ih]
        by_cases ho : k = other
        · subst ho
          simp [Ne.symm h]
        · simp [ho]

end Dictionary
end SpanRelay
