/-!
# Bindings

What names stand for, each name once, in the order in which they were first bound. Binding a name
again replaces what it stands for and keeps its place. `get?_bind` says what a binding does to
every look-up, and `size_bind` what it does to their number.
-/

set_option autoImplicit false

namespace CatScript

variable {α : Type}

/-- A list of pairs in which the value of a name is set: in its place, or else at the end. -/
def Bindings.put (name : String) (value : α) : List (String × α) → List (String × α)
  | [] => [(name, value)]
  | entry :: rest =>
    if entry.1 = name then (name, value) :: rest else entry :: Bindings.put name value rest

/-- Putting a value under a name adds the name at the end, unless it is there already. -/
theorem Bindings.map_fst_put (name : String) (value : α) (entries : List (String × α)) :
    (Bindings.put name value entries).map Prod.fst =
      if name ∈ entries.map Prod.fst then entries.map Prod.fst
      else entries.map Prod.fst ++ [name] := by
  induction entries with
  | nil => simp [Bindings.put]
  | cons entry rest ih =>
    unfold Bindings.put
    by_cases h : entry.1 = name
    · simp [h]
    · have h' : ¬ name = entry.1 := fun e => h e.symm
      rw [if_neg h, List.map_cons, ih]
      by_cases hm : name ∈ rest.map Prod.fst
      · rw [if_pos hm, List.map_cons, if_pos (List.mem_cons_of_mem _ hm)]
      · have hc : name ∉ (entry :: rest).map Prod.fst := by
          rw [List.map_cons, List.mem_cons]
          exact fun hx => hx.elim h' hm
        rw [if_neg hm, if_neg hc, List.map_cons, List.cons_append]

/-- No name is there twice after a value is put under one. -/
theorem Bindings.nodup_put (name : String) (value : α) {entries : List (String × α)}
    (h : (entries.map Prod.fst).Nodup) :
    ((Bindings.put name value entries).map Prod.fst).Nodup := by
  rw [Bindings.map_fst_put]
  split
  next => exact h
  next hm =>
    rw [List.nodup_append]
    refine ⟨h, by simp, ?_⟩
    intro a ha b hb e
    rw [List.mem_singleton] at hb
    exact hm (hb ▸ e ▸ ha)

/-- What names stand for. -/
structure Bindings (α : Type) where
  /-- The names with their values, in order of first binding. -/
  entries : List (String × α)
  /-- No name stands twice. -/
  nodup : (entries.map Prod.fst).Nodup

namespace Bindings

/-- No bindings. -/
def empty : Bindings α := ⟨[], List.nodup_nil⟩

/-- What a name stands for. -/
def get? (b : Bindings α) (name : String) : Option α :=
  (b.entries.find? (·.1 = name)).map Prod.snd

/-- The bindings in which a name stands for a value. -/
def bind (b : Bindings α) (name : String) (value : α) : Bindings α :=
  ⟨put name value b.entries, nodup_put name value b.nodup⟩

/-- Whether a name is bound. -/
def contains (b : Bindings α) (name : String) : Bool := (b.get? name).isSome

/-- The number of bound names. -/
def size (b : Bindings α) : Nat := b.entries.length

/-- Whether no name is bound. -/
def isEmpty (b : Bindings α) : Bool := b.entries.isEmpty

/-- A name that was just bound stands for the new value, and every other for what it stood for. -/
theorem get?_bind (b : Bindings α) (name : String) (value : α) (other : String) :
    (b.bind name value).get? other = if other = name then some value else b.get? other := by
  change ((put name value b.entries).find? (·.1 = other)).map Prod.snd =
    if other = name then some value else (b.entries.find? (·.1 = other)).map Prod.snd
  generalize b.entries = entries
  induction entries with
  | nil =>
    by_cases h : other = name
    · simp [put, h]
    · have h' : ¬ name = other := fun e => h e.symm
      simp [put, h, h']
  | cons entry rest ih =>
    unfold put
    by_cases he : entry.1 = name
    · by_cases h : other = name
      · simp [he, h]
      · have h' : ¬ name = other := fun e => h e.symm
        simp [he, h, h']
    · by_cases ho : entry.1 = other
      · have hn : ¬ other = name := fun e => he (ho.trans e)
        simp [ho, hn]
      · simp only [if_neg he, List.find?_cons, ho, decide_false]
        exact ih

/-- The names that stand for something are those of the entries. -/
theorem isSome_get?_iff (b : Bindings α) (name : String) :
    (b.get? name).isSome ↔ name ∈ b.entries.map Prod.fst := by
  unfold get?
  rw [Option.isSome_map, List.find?_isSome]
  simp [List.mem_map]

/-- Binding a name adds to the number of names if the name is new. -/
theorem size_bind (b : Bindings α) (name : String) (value : α) :
    (b.bind name value).size = if b.contains name then b.size else b.size + 1 := by
  have h := congrArg List.length (map_fst_put name value b.entries)
  unfold bind size contains
  dsimp only
  rw [List.length_map] at h
  rw [h]
  by_cases hc : name ∈ b.entries.map Prod.fst
  · rw [if_pos hc, if_pos ((b.isSome_get?_iff name).2 hc), List.length_map]
  · rw [if_neg hc, if_neg (fun hs => hc ((b.isSome_get?_iff name).1 hs)), List.length_append,
      List.length_map, List.length_singleton]

end Bindings

end CatScript
