/-
Values under text keys, in ascending order of the keys.

The entries are a list that ascends strictly, so each key occurs once and the order
is a property of the value, not of how it was built.  `find?_insert` says what
inserting does.
-/
import ModuleBoundary.Text.Basic

namespace ModuleBoundary

structure Keyed (α : Type) where
  entries : List (Text × α)
  ascending : entries.Pairwise (fun a b => a.1 < b.1)

namespace Keyed

variable {α : Type}

def empty : Keyed α := ⟨[], .nil⟩

def lookup (key : Text) : List (Text × α) → Option α
  | [] => none
  | e :: rest => if e.1 = key then some e.2 else lookup key rest

def find? (m : Keyed α) (key : Text) : Option α := lookup key m.entries

def keys (m : Keyed α) : List Text := m.entries.map Prod.fst

def values (m : Keyed α) : List α := m.entries.map Prod.snd

/-! ## Inserting -/

/-- Puts an entry where it belongs; an entry with the same key is replaced. -/
def insertEntry (key : Text) (a : α) : List (Text × α) → List (Text × α)
  | [] => [(key, a)]
  | e :: rest =>
    if key < e.1 then (key, a) :: e :: rest
    else if key = e.1 then (key, a) :: rest
    else e :: insertEntry key a rest

theorem mem_insertEntry {key : Text} {a : α} {l : List (Text × α)} {e : Text × α}
    (h : e ∈ insertEntry key a l) : e = (key, a) ∨ e ∈ l := by
  induction l with
  | nil => exact Or.inl (List.mem_singleton.mp h)
  | cons d rest ih =>
    rw [insertEntry] at h
    split at h
    · exact (List.mem_cons.mp h).imp id id
    · split at h
      · exact (List.mem_cons.mp h).imp id (List.mem_cons_of_mem d)
      · rcases List.mem_cons.mp h with rfl | h
        · exact Or.inr List.mem_cons_self
        · exact (ih h).imp id (List.mem_cons_of_mem d)

theorem insertEntry_ascending {key : Text} {a : α} {l : List (Text × α)}
    (h : l.Pairwise (fun a b => a.1 < b.1)) :
    (insertEntry key a l).Pairwise (fun a b => a.1 < b.1) := by
  induction l with
  | nil => exact List.pairwise_singleton _ _
  | cons d rest ih =>
    obtain ⟨hd, hrest⟩ := List.pairwise_cons.mp h
    rw [insertEntry]
    split
    · next hlt =>
      refine List.pairwise_cons.mpr ⟨fun e he => ?_, h⟩
      rcases List.mem_cons.mp he with rfl | he
      · exact hlt
      · exact List.lt_trans hlt (hd e he)
    · split
      · next heq => exact List.pairwise_cons.mpr ⟨fun e he => heq ▸ hd e he, hrest⟩
      · next hlt hne =>
        refine List.pairwise_cons.mpr ⟨fun e he => ?_, ih hrest⟩
        rcases mem_insertEntry he with rfl | he
        · rcases Std.lt_trichotomy key d.1 with h | h | h
          · exact absurd h hlt
          · exact absurd h hne
          · exact h
        · exact hd e he

def insert (m : Keyed α) (key : Text) (a : α) : Keyed α :=
  ⟨insertEntry key a m.entries, insertEntry_ascending m.ascending⟩

/-- The entries one after the other; of two with one key the later one counts. -/
def ofList (l : List (Text × α)) : Keyed α := l.foldl (fun m e => m.insert e.1 e.2) empty

/-! ## What can be seen -/

theorem lookup_insertEntry {key k : Text} {a : α} {l : List (Text × α)} :
    lookup k (insertEntry key a l) = if key = k then some a else lookup k l := by
  induction l with
  | nil => rfl
  | cons d rest ih =>
    rw [insertEntry]
    split
    · rfl
    · split
      · next h => by_cases hk : key = k <;> simp [lookup, ← h, hk]
      · next hne =>
        rw [lookup, lookup, ih]
        by_cases hd : d.1 = k
        · rw [if_pos hd, if_neg fun h => hne (h.trans hd.symm)]
          exact (if_pos hd).symm
        · rw [if_neg hd, if_neg hd]

theorem find?_insert (m : Keyed α) (key k : Text) (a : α) :
    (m.insert key a).find? k = if key = k then some a else m.find? k := lookup_insertEntry

theorem find?_empty (k : Text) : (empty : Keyed α).find? k = none := rfl

end Keyed
end ModuleBoundary
