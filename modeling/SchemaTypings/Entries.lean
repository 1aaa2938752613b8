/-!
# Ordered entries

Keyed values in the order in which their keys first appeared. `put` gives a key a new value in its
place, or at the end when it is new; `ofList` puts one entry after the other.
-/

namespace SchemaTypings.Entries

variable {α : Type}

/-- The entries with a value put under a key. -/
def put (entries : List (String × α)) (key : String) (v : α) : List (String × α) :=
  match entries with
  | [] => [(key, v)]
  | (k, old) :: rest => if k = key then (k, v) :: rest else (k, old) :: put rest key v

/-- The entries with a value put under a key that is not there. -/
def putIfAbsent (entries : List (String × α)) (key : String) (v : α) : List (String × α) :=
  if (entries.lookup key).isSome then entries else put entries key v

/-- The entries with all of the second put among the first. -/
def putAll (entries new : List (String × α)) : List (String × α) :=
  new.foldl (fun es e => put es e.1 e.2) entries

/-- The entries that a list of pairs makes. -/
def ofList (pairs : List (String × α)) : List (String × α) :=
  putAll [] pairs

/-- The keys in order. -/
def keys (entries : List (String × α)) : List String :=
  entries.map Prod.fst

/-- A key holds what was put under it. -/
theorem lookup_put_self (entries : List (String × α)) (key : String) (v : α) :
    (put entries key v).lookup key = some v := by
  induction entries with
  | nil => simp [put]
  | cons e rest ih =>
    obtain ⟨k, old⟩ := e
    by_cases h : k = key
    · simp [put, h]
    · have hb : (key == k) = false := by simpa using Ne.symm h
      simp [put, h, List.lookup_cons, hb, ih]

/-- Any other key holds what it held. -/
theorem lookup_put_of_ne (entries : List (String × α)) {key other : String} (v : α)
    (h : other ≠ key) : (put entries key v).lookup other = entries.lookup other := by
  induction entries with
  | nil => simp [put, h]
  | cons e rest ih =>
    obtain ⟨k, old⟩ := e
    by_cases hk : k = key
    · have hb : (other == k) = false := by simpa [hk] using h
      simp [put, hk, List.lookup_cons, hk ▸ hb]
    · simp [put, hk, List.lookup_cons, ih]

/-- A key that is there leaves the keys as they are, and a new one comes last. -/
theorem keys_put (entries : List (String × α)) (key : String) (v : α) :
    keys (put entries key v) =
      if key ∈ keys entries then keys entries else keys entries ++ [key] := by
  induction entries with
  | nil => simp [put, keys]
  | cons e rest ih =>
    obtain ⟨k, old⟩ := e
    by_cases h : k = key
    · subst h
      simp [put, keys]
    · simp only [keys] at ih
      by_cases hm : key ∈ rest.map Prod.fst
      · simp [put, keys, h, Ne.symm h, ih, hm]
      · simp [put, keys, h, Ne.symm h, ih, hm]

/-- Leaving keys out does not change what is found under another key. -/
theorem lookup_filter_of_key {κ : Type} [BEq κ] [LawfulBEq κ] (keep : κ → Bool) {key : κ}
    (h : keep key) (l : List (κ × α)) : (l.filter fun e => keep e.1).lookup key = l.lookup key := by
  induction l with
  | nil => rfl
  | cons e l ih =>
    obtain ⟨k, a⟩ := e
    rw [List.filter_cons, List.lookup_cons]
    cases hk : key == k with
    | true =>
      obtain rfl := eq_of_beq hk
      simp [h]
    | false => cases hkeep : keep k <;> simp [List.lookup_cons, hk, ih]

end SchemaTypings.Entries
