/-
Directory trees as values.

A tree is a list of located entries, and a location is the list of the names that
lead to it from the root.  Everything that asks about a tree is then a filter of
one list, and a statement about every tree is a statement about such lists.  Two
facts make the list a tree, and every operation keeps them: no location occurs
twice, and the directory around an entry is an entry as well.

Absolute paths start at the root, and all others at the working directory, which is the
root unless it is said otherwise.  A tree can be seen from any other directory of it
(`Tree.seenFrom`).
-/
import ModuleBoundary.Path

namespace ModuleBoundary

/-- The names that lead to an entry from the root of a tree. -/
abbrev Location := List Bytes

inductive Entry
  | file (bytes : Bytes)
  | dir
  deriving DecidableEq, Repr

/-- A name of an entry: no slash, and none of the segments that a path reads
otherwise. -/
def IsEntryName (n : Bytes) : Prop := n ≠ [] ∧ n ≠ [dot] ∧ n ≠ [dot, dot] ∧ slash ∉ n

instance (n : Bytes) : Decidable (IsEntryName n) := inferInstanceAs (Decidable (_ ∧ _))

/-- What makes located entries a tree.  The root is a directory and no entry. -/
structure Tree.Valid (entries : List (Location × Entry)) : Prop where
  nodup : (entries.map Prod.fst).Nodup
  names : ∀ e ∈ entries, ∀ n ∈ e.1, IsEntryName n
  notRoot : ∀ e ∈ entries, e.1 ≠ []
  parent : ∀ e ∈ entries, e.1.dropLast = [] ∨ (e.1.dropLast, Entry.dir) ∈ entries

structure Tree where
  entries : List (Location × Entry)
  /-- The working directory.  From a location without a directory, relative paths
  lead nowhere. -/
  here : Location := []
  valid : Tree.Valid entries

namespace Tree

def empty : Tree := ⟨[], [], ⟨List.nodup_nil, by simp, by simp, by simp⟩⟩

def seenFrom (t : Tree) (l : Location) : Tree := { t with here := l }

def at? (t : Tree) (l : Location) : Option Entry :=
  if l = [] then some .dir else (t.entries.find? (·.1 = l)).map Prod.snd

theorem at?_nil (t : Tree) : t.at? [] = some .dir := rfl

/-- In a list without two entries at one location, an entry is the one found there. -/
theorem find?_eq_of_mem {entries : List (Location × Entry)} (hn : (entries.map Prod.fst).Nodup)
    {l : Location} {e : Entry} (hm : (l, e) ∈ entries) :
    entries.find? (·.1 = l) = some (l, e) := by
  induction entries with
  | nil => exact absurd hm (by simp)
  | cons d rest ih =>
    rw [List.map_cons, List.nodup_cons] at hn
    rcases List.mem_cons.mp hm with rfl | hm
    · simp
    · have hd : d.1 ≠ l := fun h => hn.1 (h ▸ List.mem_map_of_mem hm)
      rw [List.find?_cons_of_neg (by simpa using hd)]
      exact ih hn.2 hm

/-- The entries are what `at?` finds below the root. -/
theorem at?_eq_some_iff {t : Tree} {l : Location} (h : l ≠ []) {e : Entry} :
    t.at? l = some e ↔ (l, e) ∈ t.entries := by
  rw [at?, if_neg h]
  constructor
  · intro hm
    obtain ⟨⟨m, d⟩, hf, rfl⟩ := Option.map_eq_some_iff.mp hm
    have hml := List.find?_some hf
    simp only [decide_eq_true_eq] at hml
    exact hml ▸ List.mem_of_find?_eq_some hf
  · intro hm
    rw [find?_eq_of_mem t.valid.nodup hm]
    rfl

/-! ## Changing a tree -/

/-- The tree with one more entry; `none` if the place is taken or lies in no
directory. -/
def add? (t : Tree) (l : Location) (e : Entry) : Option Tree :=
  if h : l ≠ [] ∧ (∀ n ∈ l, IsEntryName n) ∧ t.at? l.dropLast = some .dir ∧ t.at? l = none then
    some ⟨t.entries ++ [(l, e)], t.here, by
      obtain ⟨hl, hn, hp, ha⟩ := h
      have hnew : l ∉ t.entries.map Prod.fst := by
        intro hm
        obtain ⟨⟨m, d⟩, hd, rfl⟩ := List.mem_map.mp hm
        rw [(at?_eq_some_iff hl).mpr hd] at ha
        exact absurd ha (by simp)
      refine ⟨?_, ?_, ?_, ?_⟩
      · rw [List.map_append, List.nodup_append]
        exact ⟨t.valid.nodup, by simp, fun a hmem b hb hab => by
          rw [List.map_cons, List.map_nil, List.mem_singleton] at hb
          rw [hab.trans hb] at hmem
          exact hnew hmem⟩
      · intro x hx
        rcases List.mem_append.mp hx with hx | hx
        · exact t.valid.names x hx
        · rw [List.mem_singleton.mp hx]
          exact hn
      · intro x hx
        rcases List.mem_append.mp hx with hx | hx
        · exact t.valid.notRoot x hx
        · rw [List.mem_singleton.mp hx]
          exact hl
      · intro x hx
        rcases List.mem_append.mp hx with hx | hx
        · exact (t.valid.parent x hx).imp id fun h => List.mem_append_left _ h
        · rw [List.mem_singleton.mp hx]
          by_cases hd : l.dropLast = []
          · exact Or.inl hd
          · exact Or.inr (List.mem_append_left _ ((at?_eq_some_iff hd).mp hp))⟩
  else none

def remove (t : Tree) (l : Location) : Tree :=
  ⟨t.entries.filter fun e => !l.isPrefixOf e.1, t.here, by
    refine ⟨?_, ?_, ?_, ?_⟩
    · exact (List.filter_sublist.map Prod.fst).nodup t.valid.nodup
    · exact fun x hx => t.valid.names x (List.mem_filter.mp hx).1
    · exact fun x hx => t.valid.notRoot x (List.mem_filter.mp hx).1
    · intro x hx
      obtain ⟨hx, hkeep⟩ := List.mem_filter.mp hx
      refine (t.valid.parent x hx).imp id fun hp => List.mem_filter.mpr ⟨hp, ?_⟩
      simp only [Bool.not_eq_true', Bool.eq_false_iff, ne_eq, List.isPrefixOf_iff_prefix] at hkeep ⊢
      exact fun h => hkeep (h.trans (List.dropLast_prefix _))⟩

def makeDirs? (t : Tree) (l : Location) : Option Tree :=
  ((List.range l.length).map fun n => l.take (n + 1)).foldlM
    (fun t l => if t.at? l = some .dir then some t else t.add? l .dir) t

/-- The tree with a file at the location, in directories made where they are
missing.  A file that is there is replaced; a directory is not. -/
def write? (t : Tree) (l : Location) (bytes : Bytes) : Option Tree := do
  let t ← t.makeDirs? l.dropLast
  match t.at? l with
  | some .dir => none
  | some (.file _) => (t.remove l).add? l (.file bytes)
  | none => t.add? l (.file bytes)

end Tree
end ModuleBoundary
