/-! # Ordered fields

The fields of an object: names with values, in the order in which the names came
first. Giving a present name a new value keeps its place; a new name goes last. -/

namespace ResourceApi

abbrev Fields (α : Type) := List (String × α)

namespace Fields

variable {α β : Type}

/-- The value of a name. -/
def get? : Fields α → String → Option α
  | [], _ => none
  | (n, v) :: rest, name => if n = name then some v else get? rest name

def has (fs : Fields α) (name : String) : Bool := (fs.get? name).isSome

def names (fs : Fields α) : List String := fs.map (·.1)

/-- Gives `name` the value `value`: in place if it is there, else at the end. -/
def put : Fields α → String → α → Fields α
  | [], name, value => [(name, value)]
  | (n, v) :: rest, name, value =>
    if n = name then (n, value) :: rest else (n, v) :: put rest name value

def erase : Fields α → String → Fields α
  | [], _ => []
  | (n, v) :: rest, name => if n = name then erase rest name else (n, v) :: erase rest name

/-- Puts every field of `new`, in order. -/
def merge (fs new : Fields α) : Fields α :=
  new.foldl (fun acc f => acc.put f.1 f.2) fs

/-- Fields from pairs that may repeat a name: its first place, its last value. -/
def ofPairs (pairs : List (String × α)) : Fields α := merge [] pairs

@[simp] theorem get?_nil (name : String) : get? ([] : Fields α) name = none := rfl

theorem get?_put (fs : Fields α) (a b : String) (v : α) :
    (fs.put a v).get? b = if a = b then some v else fs.get? b := by
  induction fs with
  | nil => simp [put, get?]
  | cons f rest ih =>
    simp only [put]
    by_cases h : f.1 = a
    · subst h
      simp only [if_true, get?]
      split <;> rfl
    · simp only [if_neg h, get?, ih]
      by_cases hb : f.1 = b
      · subst hb; simp [Ne.symm h]
      · simp [hb]

theorem names_put (fs : Fields α) (a : String) (v : α) :
    (fs.put a v).names = if a ∈ fs.names then fs.names else fs.names ++ [a] := by
  induction fs with
  | nil => simp [put, names]
  | cons f rest ih =>
    simp only [put]
    by_cases h : f.1 = a
    · subst h; simp [names]
    · have ih' : List.map (·.1) (put rest a v) =
          if a ∈ List.map (·.1) rest then List.map (·.1) rest
          else List.map (·.1) rest ++ [a] := ih
      simp only [if_neg h, names, List.map_cons, ih', List.mem_cons, Ne.symm h, false_or]
      split <;> simp

end Fields
end ResourceApi
