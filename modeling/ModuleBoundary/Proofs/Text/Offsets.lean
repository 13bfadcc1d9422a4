/-
Offsets into the bytes of a text.

A text can be searched and cut by its bytes, and an offset that was found in one text can be used
to cut another one.  Such a cut fails if it falls into the middle of a character
(`Text.slice?_eq_some_iff`), so what matters is where a search can end.  The bytes of an ASCII
text stand in the bytes of a text only where its characters stand (`occursAt_encode_iff`), and
lower case keeps every byte in its place (`encode_lower`).
-/
import ModuleBoundary.Proofs.Text.Encoding
import ModuleBoundary.Proofs.Text.LetterCase

namespace ModuleBoundary

namespace Utf8

/-- No byte of ASCII stands in another character. -/
theorem ascii_ne_drop {p c : Char} (hp : p.toNat < 0x80) (hc : 0x80 ≤ c.toNat) {k : Nat}
    (hk : k < (String.utf8EncodeChar c).length) (rest bytes : Bytes) :
    UInt8.ofNat p.toNat :: rest ≠ (String.utf8EncodeChar c).drop k ++ bytes := by
  intro h
  rw [List.drop_eq_getElem_cons hk] at h
  have hbyte := congrArg UInt8.toNat (List.cons.inj h).1
  have hlarge := forall_mem_utf8EncodeChar hc _ (List.getElem_mem hk)
  rw [toNat_ascii hp] at hbyte
  omega

/-- Texts whose bytes begin alike begin alike, if those bytes are ASCII. -/
theorem prefix_of_encode_prefix {part s : Text} (hascii : ∀ c ∈ part, c.toNat < 0x80)
    (h : encode part <+: encode s) : part <+: s := by
  induction part generalizing s with
  | nil => exact List.nil_prefix
  | cons p part ih =>
    have hp : p.toNat < 0x80 := hascii p List.mem_cons_self
    rw [encode_cons, utf8EncodeChar_ascii hp] at h
    cases s with
    | nil => exact absurd (List.prefix_nil.mp h) (List.cons_ne_nil _ _)
    | cons c s =>
      by_cases hc : c.toNat < 0x80
      · rw [encode_cons, utf8EncodeChar_ascii hc] at h
        obtain ⟨hbyte, hrest⟩ := List.cons_prefix_cons.mp h
        have hnat := congrArg UInt8.toNat hbyte
        rw [toNat_ascii hp, toNat_ascii hc] at hnat
        obtain rfl := Char.toNat_inj.mp hnat
        have hpart := ih (fun d hd => hascii d (List.mem_cons_of_mem _ hd)) hrest
        exact List.cons_prefix_cons.mpr ⟨rfl, hpart⟩
      · obtain ⟨rest, hrest⟩ := h
        rw [encode_cons] at hrest
        exact absurd hrest
          (ascii_ne_drop hp (Nat.le_of_not_lt hc) (length_utf8EncodeChar_pos c) _ _)

/-! ## Searching -/

def occursAt (part bytes : Bytes) (i : Nat) : Bool := part.isPrefixOf (bytes.drop i)

def find? (part bytes : Bytes) : Option Nat :=
  (List.range (bytes.length + 1)).find? (occursAt part bytes)

def findLast? (part bytes : Bytes) : Option Nat :=
  (List.range (bytes.length + 1)).reverse.find? (occursAt part bytes)

theorem occursAt_iff {part bytes : Bytes} {i : Nat} :
    occursAt part bytes i = true ↔ part <+: bytes.drop i := List.isPrefixOf_iff_prefix

section
variable {part s : Text} (hascii : ∀ c ∈ part, c.toNat < 0x80) (hne : part ≠ [])
include hascii hne

/-- An ASCII text stands at no offset inside a character. -/
theorem eq_zero_of_prefix_drop {c : Char} {i : Nat} (hi : i < (String.utf8EncodeChar c).length)
    (h : encode part <+: (encode (c :: s)).drop i) : i = 0 := by
  obtain ⟨p, part, rfl⟩ := List.exists_cons_of_ne_nil hne
  have hp : p.toNat < 0x80 := hascii p List.mem_cons_self
  by_contra hzero
  -- An ASCII character has one byte, so `c` is none.
  have hc : 0x80 ≤ c.toNat := by
    by_contra hsmall
    rw [utf8EncodeChar_ascii (Nat.lt_of_not_le hsmall), List.length_singleton] at hi
    omega
  obtain ⟨rest, hrest⟩ := h
  rw [encode_cons, encode_cons, utf8EncodeChar_ascii hp,
    List.drop_append_of_le_length (Nat.le_of_lt hi)] at hrest
  exact absurd hrest (ascii_ne_drop hp hc hi _ _)

theorem exists_of_prefix_drop {i : Nat} (h : encode part <+: (encode s).drop i) :
    ∃ a b, s = a ++ (part ++ b) ∧ (encode a).length = i := by
  induction s generalizing i with
  | nil =>
    obtain ⟨p, part, rfl⟩ := List.exists_cons_of_ne_nil hne
    rw [encode_cons, utf8EncodeChar_ascii (hascii p List.mem_cons_self)] at h
    exact absurd (List.prefix_nil.mp (List.drop_nil (i := i) ▸ h)) (List.cons_ne_nil _ _)
  | cons c s ih =>
    by_cases hi : i < (String.utf8EncodeChar c).length
    · obtain rfl := eq_zero_of_prefix_drop hascii hne hi h
      obtain ⟨b, hb⟩ := prefix_of_encode_prefix hascii h
      exact ⟨[], b, hb.symm, rfl⟩
    · have hle := Nat.le_of_not_lt hi
      rw [encode_cons, List.drop_append, List.drop_of_length_le hle, List.nil_append] at h
      obtain ⟨a, b, hs, ha⟩ := ih h
      refine ⟨c :: a, b, congrArg (c :: ·) hs, ?_⟩
      rw [encode_cons, List.length_append, ha, Nat.add_sub_cancel' hle]

/-- The bytes of an ASCII text stand only where the text stands. -/
theorem occursAt_encode_iff {i : Nat} : occursAt (encode part) (encode s) i = true ↔
    ∃ a b, s = a ++ (part ++ b) ∧ (encode a).length = i := by
  rw [occursAt_iff]
  constructor
  · intro h
    exact exists_of_prefix_drop hascii hne h
  · intro h
    obtain ⟨a, b, rfl, rfl⟩ := h
    rw [encode_append, List.drop_left, encode_append]
    exact List.prefix_append _ _

end

theorem length_encode_le {s a b a' b' : Text} (ha : s = a ++ b) (ha' : s = a' ++ b')
    (hle : a.length ≤ a'.length) : (encode a).length ≤ (encode a').length := by
  obtain ⟨t, rfl⟩ := List.prefix_of_prefix_length_le ⟨b, ha.symm⟩ ⟨b', ha'.symm⟩ hle
  rw [encode_append, List.length_append]
  exact Nat.le_add_right _ _

theorem find?_reverse_range {p : Nat → Bool} {n i : Nat} (hi : i < n) (hp : p i = true)
    (hlast : ∀ j, i < j → p j = false) : (List.range n).reverse.find? p = some i := by
  induction n with
  | zero => exact absurd hi (Nat.not_lt_zero i)
  | succ n ih =>
    rw [List.range_succ, List.reverse_append, List.reverse_singleton, List.singleton_append]
    by_cases heq : i = n
    · rw [← heq, List.find?_cons_of_pos hp]
    · have hlt : i < n := by omega
      rw [List.find?_cons_of_neg (by rw [hlast n hlt]; exact Bool.false_ne_true), ih hlt]

section Search

variable {part s : Text} (hascii : ∀ c ∈ part, c.toNat < 0x80) (hne : part ≠ [])
include hascii hne

/-- No offset is behind the end. -/
theorem lt_of_occursAt {i : Nat} (h : occursAt (encode part) (encode s) i = true) :
    i < (encode s).length + 1 := by
  obtain ⟨a, b, rfl, rfl⟩ := (occursAt_encode_iff hascii hne).mp h
  rw [encode_append, List.length_append]
  omega

/-- The search for bytes ends where the text stands for the first time. -/
theorem find?_encode {a b : Text} (hs : s = a ++ (part ++ b))
    (hfirst : ∀ a' b', s = a' ++ (part ++ b') → a.length ≤ a'.length) :
    find? (encode part) (encode s) = some (encode a).length := by
  have hoccurs := (occursAt_encode_iff hascii hne).mpr ⟨a, b, hs, rfl⟩
  refine List.find?_range_eq_some.mpr
    ⟨hoccurs, List.mem_range.mpr (lt_of_occursAt hascii hne hoccurs), fun j hj => ?_⟩
  rw [Bool.not_eq_true', Bool.eq_false_iff]
  intro hearlier
  obtain ⟨a', b', hs', rfl⟩ := (occursAt_encode_iff hascii hne).mp hearlier
  have hle := length_encode_le hs hs' (hfirst a' b' hs')
  omega

theorem find?_encode_eq_none (h : ¬ part <:+: s) : find? (encode part) (encode s) = none := by
  refine List.find?_eq_none.mpr fun i _ hoccurs => h ?_
  obtain ⟨a, b, hs, _⟩ := (occursAt_encode_iff hascii hne).mp hoccurs
  exact ⟨a, b, by rw [hs, List.append_assoc]⟩

/-- The search from the end ends where the text stands for the last time. -/
theorem findLast?_encode {a b : Text} (hs : s = a ++ (part ++ b))
    (hlast : ∀ a' b', s = a' ++ (part ++ b') → a'.length ≤ a.length) :
    findLast? (encode part) (encode s) = some (encode a).length := by
  have hoccurs := (occursAt_encode_iff hascii hne).mpr ⟨a, b, hs, rfl⟩
  refine find?_reverse_range (lt_of_occursAt hascii hne hoccurs) hoccurs fun j hj => ?_
  rw [Bool.eq_false_iff]
  intro hlater
  obtain ⟨a', b', hs', rfl⟩ := (occursAt_encode_iff hascii hne).mp hlater
  have hle := length_encode_le hs' hs (hlast a' b' hs')
  omega

theorem findLast?_encode_eq_none (h : ¬ part <:+: s) :
    findLast? (encode part) (encode s) = none := by
  refine List.find?_eq_none.mpr fun i _ hoccurs => h ?_
  obtain ⟨a, b, hs, _⟩ := (occursAt_encode_iff hascii hne).mp hoccurs
  exact ⟨a, b, by rw [hs, List.append_assoc]⟩

end Search

/-! ## Lower case -/

def lower (bytes : Bytes) : Bytes :=
  bytes.map fun b => if 0x41 ≤ b.toNat ∧ b.toNat ≤ 0x5A then UInt8.ofNat (b.toNat + 0x20) else b

/-- Lower case changes bytes where they stand. -/
theorem encode_lower (s : Text) : encode (Text.lower s) = lower (encode s) := by
  induction s with
  | nil => rfl
  | cons c s ih =>
    show encode (c.toLower :: Text.lower s) = _
    rw [encode_cons, encode_cons, ih, lower, lower, List.map_append]
    congr 1
    have hlower := Text.toNat_toLower c
    by_cases hc : c.toNat < 0x80
    · have hsmall : c.toLower.toNat < 0x80 := by
        split at hlower <;> omega
      rw [utf8EncodeChar_ascii hc, utf8EncodeChar_ascii hsmall, List.map_singleton,
        toNat_ascii hc, hlower]
      split <;> rfl
    · have hsame : c.toLower = c := by
        rw [← Char.toNat_inj, hlower, if_neg (by omega)]
      have hkeep : ∀ b ∈ String.utf8EncodeChar c,
          (if 0x41 ≤ b.toNat ∧ b.toNat ≤ 0x5A then UInt8.ofNat (b.toNat + 0x20) else b) = id b := by
        intro b hb
        have hlarge := forall_mem_utf8EncodeChar (Nat.le_of_not_lt hc) b hb
        exact if_neg (by omega)
      rw [hsame, List.map_congr_left hkeep, List.map_id]

theorem length_encode_lower (s : Text) : (encode (Text.lower s)).length = (encode s).length := by
  rw [encode_lower, lower, List.length_map]

end Utf8

namespace Text

/-! ## Cutting -/

/-- An offset between two characters, or at an end of the text. -/
def IsBoundary (s : Text) (i : Nat) : Prop := ∃ a b, s = a ++ b ∧ (Utf8.encode a).length = i

/-- What stands in front of an offset and behind it.  No character is cut in two, and nothing is
cut behind the end. -/
def cutAtOffset? : Nat → Text → Option (Text × Text)
  | 0, s => some ([], s)
  | _ + 1, [] => none
  | n + 1, c :: s =>
    let size := (String.utf8EncodeChar c).length
    if size ≤ n + 1 then (cutAtOffset? (n + 1 - size) s).map fun r => (c :: r.1, r.2) else none

def slice? (s : Text) (i j : Nat) : Option Text := do
  let (front, _) ← cutAtOffset? j s
  let (_, part) ← cutAtOffset? i front
  some part

theorem cutAtOffset?_eq_some_iff {n : Nat} {s a b : Text} :
    cutAtOffset? n s = some (a, b) ↔ s = a ++ b ∧ (Utf8.encode a).length = n := by
  constructor
  · intro h
    induction s generalizing n a with
    | nil =>
      cases n with
      | zero =>
        obtain ⟨rfl, rfl⟩ := Prod.mk.inj (Option.some.inj h)
        exact ⟨rfl, rfl⟩
      | succ n => exact absurd h (by simp [cutAtOffset?])
    | cons c s ih =>
      cases n with
      | zero =>
        obtain ⟨rfl, rfl⟩ := Prod.mk.inj (Option.some.inj h)
        exact ⟨rfl, rfl⟩
      | succ n =>
        rw [cutAtOffset?] at h
        split at h
        · next hle =>
          obtain ⟨⟨front, behind⟩, hcut, heq⟩ := Option.map_eq_some_iff.mp h
          obtain ⟨rfl, rfl⟩ := Prod.mk.inj heq
          obtain ⟨rfl, hlength⟩ := ih hcut
          refine ⟨rfl, ?_⟩
          rw [Utf8.encode_cons, List.length_append, hlength, Nat.add_sub_cancel' hle]
        · exact absurd h (by simp)
  · intro h
    obtain ⟨rfl, rfl⟩ := h
    induction a with
    | nil => cases b <;> rfl
    | cons c a ih =>
      rw [List.cons_append, Utf8.encode_cons, List.length_append]
      obtain ⟨n, hn⟩ := Nat.exists_eq_add_one.mpr
        (Nat.add_pos_left (Utf8.length_utf8EncodeChar_pos c) (Utf8.encode a).length)
      rw [hn, cutAtOffset?, if_pos (by omega), ← hn, Nat.add_sub_cancel_left, ih]
      rfl

/-- A slice is what stands between two boundaries, the first one not behind the second one. -/
theorem slice?_eq_some_iff {s part : Text} {i j : Nat} :
    slice? s i j = some part ↔
      ∃ a b, s = a ++ (part ++ b) ∧ (Utf8.encode a).length = i ∧
        (Utf8.encode (a ++ part)).length = j := by
  simp only [slice?, Option.bind_eq_bind, Option.bind_eq_some_iff, Option.some.injEq, Prod.exists,
    cutAtOffset?_eq_some_iff]
  constructor
  · intro h
    obtain ⟨front, b, ⟨rfl, hj⟩, a, part', ⟨rfl, hi⟩, rfl⟩ := h
    exact ⟨a, b, List.append_assoc _ _ _, hi, hj⟩
  · intro h
    obtain ⟨a, b, rfl, hi, hj⟩ := h
    exact ⟨a ++ part, b, ⟨(List.append_assoc _ _ _).symm, hj⟩, a, part, ⟨rfl, hi⟩, rfl⟩

end Text
end ModuleBoundary
