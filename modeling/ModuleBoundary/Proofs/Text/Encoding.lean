/-
The bytes of a text, and the text that bytes are.

The machine reads a text off its bytes (`decode?_encode`), and bytes of which it reads a text
without a gap are the bytes of that text and of no other (`decode?_eq_some_iff`).  The second
half follows the machine: `State.Reads` says what the bytes so far were, and what may follow
them (`Spells`).  An ASCII character is one byte, so a text and its bytes are cut at it in the
same places (`splitOn_encode`).
-/
import ModuleBoundary.Proofs.Outcome
import ModuleBoundary.Proofs.Text.Decoding
import ModuleBoundary.Proofs.Text.Parts

namespace ModuleBoundary
namespace Utf8

/-! ## Bytes of characters -/

/-- An ASCII character is the byte of its number. -/
theorem utf8EncodeChar_ascii {c : Char} (hc : c.toNat < 0x80) :
    String.utf8EncodeChar c = [UInt8.ofNat c.toNat] := by
  have hsmall : c.val.toNat ≤ 0x7F := Nat.le_of_lt_succ hc
  rw [String.utf8EncodeChar]
  exact if_pos hsmall

theorem toNat_ascii {c : Char} (hc : c.toNat < 0x80) : (UInt8.ofNat c.toNat).toNat = c.toNat :=
  UInt8.toNat_ofNat_of_lt' (Nat.lt_trans hc (by decide))

theorem length_utf8EncodeChar_pos (c : Char) : 0 < (String.utf8EncodeChar c).length := by
  rw [String.length_utf8EncodeChar]
  exact c.utf8Size_pos

/-- Every byte of another character is above those of ASCII. -/
theorem forall_mem_utf8EncodeChar {c : Char} (hc : 0x80 ≤ c.toNat) :
    ∀ b ∈ String.utf8EncodeChar c, 0x80 ≤ b.toNat := by
  have hlarge : ¬ c.val.toNat ≤ 0x7F := Nat.not_le_of_lt hc
  have hbyte : ∀ n m low, 0 < m → 0x80 ≤ low → m + low ≤ 256 →
      0x80 ≤ (UInt8.ofNat (n % m + low)).toNat := by
    intro n m low hm hlow hhigh
    have hmod := Nat.mod_lt n hm
    have hsize : n % m + low < UInt8.size := by
      show n % m + low < 256
      omega
    rw [UInt8.toNat_ofNat_of_lt' hsize]
    omega
  have hlast : ∀ n, 0x80 ≤ (UInt8.ofNat (n % 64 + 128)).toNat := by
    intro n
    exact hbyte n 64 128 (by decide) (by decide) (by decide)
  rw [String.utf8EncodeChar]
  simp only [if_neg hlarge]
  split
  · simp only [List.forall_mem_cons, List.not_mem_nil, false_imp_iff, implies_true, and_true]
    exact ⟨hbyte _ 32 192 (by decide) (by decide) (by decide), hlast _⟩
  split
  · simp only [List.forall_mem_cons, List.not_mem_nil, false_imp_iff, implies_true, and_true]
    exact ⟨hbyte _ 16 224 (by decide) (by decide) (by decide), hlast _, hlast _⟩
  · simp only [List.forall_mem_cons, List.not_mem_nil, false_imp_iff, implies_true, and_true]
    exact ⟨hbyte _ 8 240 (by decide) (by decide) (by decide), hlast _, hlast _, hlast _⟩

theorem encode_cons (c : Char) (s : Text) : encode (c :: s) = String.utf8EncodeChar c ++ encode s :=
  List.flatMap_cons

theorem encode_append (a b : Text) : encode (a ++ b) = encode a ++ encode b := List.flatMap_append

/-! ## First bytes -/

theorem first_two {b : UInt8} (h : 0xC2 ≤ b.toNat ∧ b.toNat < 0xE0) :
    first b = .inl ⟨b.toNat - 0xC0, 1, 0x80, 0xBF⟩ := by
  simp only [first]
  rw [if_neg (by omega), if_neg (by omega), if_pos (by omega)]

theorem first_three {b : UInt8} (h : 0xE0 ≤ b.toNat ∧ b.toNat < 0xF0) :
    first b = .inl ⟨b.toNat - 0xE0, 2, if b.toNat = 0xE0 then 0xA0 else 0x80,
      if b.toNat = 0xED then 0x9F else 0xBF⟩ := by
  simp only [first]
  rw [if_neg (by omega), if_neg (by omega), if_neg (by omega)]
  split
  · next he0 => simp [he0]
  split
  · next hed => simp [hed]
  · rw [if_pos (by omega)]

theorem first_four {b : UInt8} (h : 0xF0 ≤ b.toNat ∧ b.toNat < 0xF5) :
    first b = .inl ⟨b.toNat - 0xF0, 3, if b.toNat = 0xF0 then 0x90 else 0x80,
      if b.toNat = 0xF4 then 0x8F else 0xBF⟩ := by
  simp only [first]
  rw [if_neg (by omega), if_neg (by omega), if_neg (by omega), if_neg (by omega), if_neg (by omega),
    if_neg (by omega)]
  by_cases hlast : b.toNat = 0xF4
  · simp [hlast]
  split
  · next hf0 => simp [hf0]
  · rw [if_pos (by omega)]

theorem range_of_first {b : UInt8} {g : Begun} (h : first b = .inl g) :
    0xC2 ≤ b.toNat ∧ b.toNat < 0xF5 := by
  simp only [first] at h
  constructor
  · refine Nat.le_of_not_lt fun hlow => ?_
    split at h
    · cases h
    · cases h
  · refine Nat.lt_of_not_le fun hhigh => ?_
    rw [if_neg (by omega), if_neg (by omega), if_neg (by omega), if_neg (by omega),
      if_neg (by omega), if_neg (by omega), if_neg (by omega), if_neg (by omega),
      if_neg (by omega)] at h
    cases h

/-! ## Bytes that go on -/

theorem step_last {value low high : Nat} {items : List Item} {b : UInt8}
    (h : low ≤ b.toNat ∧ b.toNat ≤ high) : step ⟨some ⟨value, 1, low, high⟩, items⟩ b =
      ⟨none, some (Char.ofNat (value * 64 + (b.toNat - 0x80))) :: items⟩ := by
  simp [step, h]

theorem step_more {value missing low high : Nat} {items : List Item} {b : UInt8}
    (h : low ≤ b.toNat ∧ b.toNat ≤ high) : step ⟨some ⟨value, missing + 2, low, high⟩, items⟩ b =
      ⟨some ⟨value * 64 + (b.toNat - 0x80), missing + 1, 0x80, 0xBF⟩, items⟩ := by
  simp [step, h]

theorem step_first {items : List Item} {b : UInt8} {g : Begun} (h : first b = .inl g) :
    step ⟨none, items⟩ b = ⟨some g, items⟩ := by
  simp [step, begin, h]

/-! ## Characters -/

/-- A character is read off its bytes. -/
theorem run_utf8EncodeChar (items : List Item) (c : Char) :
    run ⟨none, items⟩ (String.utf8EncodeChar c) = ⟨none, some c :: items⟩ := by
  have hvalid : c.val.toNat < 0xD800 ∨ 0xDFFF < c.val.toNat ∧ c.val.toNat < 0x110000 := c.valid
  have hchar : ∀ n, n = c.val.toNat → Char.ofNat n = c := fun n hn => hn ▸ Char.ofNat_toNat c
  have hbyte : ∀ n, n < 256 → (UInt8.ofNat n).toNat = n := fun n hn => UInt8.toNat_ofNat_of_lt' hn
  rw [String.utf8EncodeChar]
  generalize c.val.toNat = v at *
  split
  · next h1 =>
    have hb := hbyte v (by omega)
    have hfirst : first (UInt8.ofNat v) = .inr (some c) := by
      simp only [first, hb]
      rw [if_pos (by omega), hchar v rfl]
    simp only [run, List.foldl_cons, List.foldl_nil, step, begin, hfirst]
  split
  · next h1 h2 =>
    have hb := hbyte (v / 64 % 32 + 192) (by omega)
    have hb' := hbyte (v % 64 + 128) (by omega)
    simp only [run, List.foldl_cons, List.foldl_nil]
    rw [step_first (first_two (by omega)), step_last (by omega), hchar _ (by omega)]
  split
  · next h1 h2 h3 =>
    have hb := hbyte (v / 4096 % 16 + 224) (by omega)
    have hb' := hbyte (v / 64 % 64 + 128) (by omega)
    have hb'' := hbyte (v % 64 + 128) (by omega)
    simp only [run, List.foldl_cons, List.foldl_nil]
    rw [step_first (first_three (by omega)), step_more (by split <;> split <;> omega),
      step_last (by omega), hchar _ (by omega)]
  · next h1 h2 h3 =>
    have hb := hbyte (v / 262144 % 8 + 240) (by omega)
    have hb' := hbyte (v / 4096 % 64 + 128) (by omega)
    have hb'' := hbyte (v / 64 % 64 + 128) (by omega)
    have hb''' := hbyte (v % 64 + 128) (by omega)
    simp only [run, List.foldl_cons, List.foldl_nil]
    rw [step_first (first_four (by omega)), step_more (by split <;> split <;> omega),
      step_more (by omega), step_last (by omega), hchar _ (by omega)]

theorem run_encode (items : List Item) (s : Text) :
    run ⟨none, items⟩ (encode s) = ⟨none, (s.map some).reverse ++ items⟩ := by
  induction s generalizing items with
  | nil => rfl
  | cons c s ih =>
    rw [encode, List.flatMap_cons, run_append, run_utf8EncodeChar, ← encode, ih]
    simp

theorem items_encode (s : Text) : Utf8.items (encode s) = s.map some := by
  rw [items, start, run_encode]
  simp [State.finish]

theorem decode?_encode (s : Text) : decode? (encode s) = some s := by
  rw [decode?, items_encode]
  induction s with
  | nil => rfl
  | cons c s ih => simp [List.mapM_cons, ih]

theorem decodeLossy_encode (s : Text) : decodeLossy (encode s) = s := by
  rw [decodeLossy, items_encode, List.map_map]
  exact List.map_id s

/-! ## Texts -/

/-- The bytes read of a character, with any that may follow them, are the bytes of a character. -/
def Spells (front : Bytes) : (missing value low high : Nat) → Prop
  | 0, value, _, _ => front = String.utf8EncodeChar (Char.ofNat value)
  | missing + 1, value, low, high => ∀ b : UInt8, low ≤ b.toNat ∧ b.toNat ≤ high →
      Spells (front ++ [b]) missing (value * 64 + (b.toNat - 0x80)) 0x80 0xBF

theorem toNat_ofNat_of_valid {n : Nat} (h : n < 0xD800 ∨ 0xDFFF < n ∧ n < 0x110000) :
    (Char.ofNat n).val.toNat = n := by
  have hvalid : n.isValidChar := h
  rw [Char.ofNat, dif_pos hvalid]
  rfl

theorem eq_ofNat {b : UInt8} {n : Nat} (h : n = b.toNat) : b = UInt8.ofNat n := by
  rw [h, UInt8.ofNat_toNat]

theorem spells_first {b : UInt8} {g : Begun} (h : first b = .inl g) :
    Spells [b] g.missing g.value g.low g.high := by
  have hrange := range_of_first h
  by_cases htwo : b.toNat < 0xE0
  · rw [first_two (by omega)] at h
    obtain rfl := Sum.inl.inj h
    intro b₁ h₁
    dsimp only at h₁
    have hvalue := @toNat_ofNat_of_valid ((b.toNat - 0xC0) * 64 + (b₁.toNat - 0x80)) (by omega)
    show [b, b₁] = _
    rw [String.utf8EncodeChar, hvalue, if_neg (by omega), if_pos (by omega),
      ← eq_ofNat (b := b) (by omega), ← eq_ofNat (b := b₁) (by omega)]
  by_cases hthree : b.toNat < 0xF0
  · rw [first_three (by omega)] at h
    obtain rfl := Sum.inl.inj h
    intro b₁ h₁ b₂ h₂
    have hnext : 0x80 ≤ b₁.toNat ∧ b₁.toNat ≤ 0xBF ∧ (b.toNat = 0xE0 → 0xA0 ≤ b₁.toNat) ∧
        (b.toNat = 0xED → b₁.toNat ≤ 0x9F) := by
      dsimp only at h₁
      split at h₁ <;> split at h₁ <;> omega
    have hvalue := @toNat_ofNat_of_valid
      (((b.toNat - 0xE0) * 64 + (b₁.toNat - 0x80)) * 64 + (b₂.toNat - 0x80)) (by omega)
    show [b, b₁, b₂] = _
    rw [String.utf8EncodeChar, hvalue, if_neg (by omega), if_neg (by omega), if_pos (by omega),
      ← eq_ofNat (b := b) (by omega), ← eq_ofNat (b := b₁) (by omega),
      ← eq_ofNat (b := b₂) (by omega)]
  · rw [first_four (by omega)] at h
    obtain rfl := Sum.inl.inj h
    intro b₁ h₁ b₂ h₂ b₃ h₃
    have hnext : 0x80 ≤ b₁.toNat ∧ b₁.toNat ≤ 0xBF ∧ (b.toNat = 0xF0 → 0x90 ≤ b₁.toNat) ∧
        (b.toNat = 0xF4 → b₁.toNat ≤ 0x8F) := by
      dsimp only at h₁
      split at h₁ <;> split at h₁ <;> omega
    have hvalue := @toNat_ofNat_of_valid
      ((((b.toNat - 0xF0) * 64 + (b₁.toNat - 0x80)) * 64 + (b₂.toNat - 0x80)) * 64 +
        (b₃.toNat - 0x80)) (by omega)
    show [b, b₁, b₂, b₃] = _
    rw [String.utf8EncodeChar, hvalue, if_neg (by omega), if_neg (by omega), if_neg (by omega),
      ← eq_ofNat (b := b) (by omega), ← eq_ofNat (b := b₁) (by omega),
      ← eq_ofNat (b := b₂) (by omega), ← eq_ofNat (b := b₃) (by omega)]

/-- Unless there is a gap among the items, the bytes were those of a text and of a character that
has begun. -/
def State.Reads (s : State) (bytes : Bytes) : Prop :=
  none ∈ s.items ∨ ∃ text front, s.items = (text.map some).reverse ∧ bytes = encode text ++ front ∧
    match s.begun with
    | none => front = []
    | some g => 1 ≤ g.missing ∧ Spells front g.missing g.value g.low g.high

theorem reads_begin {text : Text} (b : UInt8) :
    (begin (text.map some).reverse b).Reads (encode text ++ [b]) := by
  rw [begin]
  rcases first_cases b with ⟨hb, hfirst⟩ | hfirst | ⟨g, hfirst, hg⟩
  · rw [hfirst]
    have hsmall := toNat_ofNat_of_valid (n := b.toNat) (by omega)
    refine Or.inr ⟨text ++ [Char.ofNat b.toNat], [], by simp, ?_, rfl⟩
    rw [List.append_nil, encode, encode, List.flatMap_append, List.flatMap_singleton,
      String.utf8EncodeChar, hsmall, if_pos (by omega), UInt8.ofNat_toNat]
  · rw [hfirst]
    exact Or.inl List.mem_cons_self
  · rw [hfirst]
    exact Or.inr ⟨text, [b], rfl, rfl, hg.missing, spells_first hfirst⟩

theorem none_mem_step {s : State} (b : UInt8) (h : none ∈ s.items) : none ∈ (step s b).items := by
  have hitems := run_items s.begun s.items [b]
  have hmem : none ∈ (run s [b]).items := by
    rw [hitems]
    exact List.mem_append_right _ h
  exact hmem

theorem reads_step {s : State} {bytes : Bytes} (h : s.Reads bytes) (b : UInt8) :
    (step s b).Reads (bytes ++ [b]) := by
  rcases h with hgap | ⟨text, front, hitems, rfl, hbegun⟩
  · exact Or.inl (none_mem_step b hgap)
  obtain ⟨begun, items⟩ := s
  obtain rfl : items = (text.map some).reverse := hitems
  cases begun with
  | none =>
    obtain rfl : front = [] := hbegun
    rw [List.append_nil]
    exact reads_begin b
  | some g =>
    obtain ⟨value, missing, low, high⟩ := g
    by_cases hrange : low ≤ b.toNat ∧ b.toNat ≤ high
    · match missing, hbegun with
      | 1, ⟨_, hspells⟩ =>
        have hchar : front ++ [b] = String.utf8EncodeChar _ := hspells b hrange
        rw [step_last hrange]
        refine Or.inr ⟨text ++ [Char.ofNat (value * 64 + (b.toNat - 0x80))], [], by simp, ?_, rfl⟩
        rw [List.append_nil, List.append_assoc, hchar, encode, encode, List.flatMap_append,
          List.flatMap_singleton]
      | missing + 2, ⟨_, hspells⟩ =>
        rw [step_more hrange]
        exact Or.inr ⟨text, front ++ [b], rfl, List.append_assoc _ _ _, Nat.succ_pos _,
          hspells b hrange⟩
    · refine Or.inl ?_
      have hstep : step ⟨some ⟨value, missing, low, high⟩, (text.map some).reverse⟩ b =
          begin (none :: (text.map some).reverse) b := by simp [step, hrange]
      rw [hstep]
      exact none_mem_step (s := ⟨none, none :: (text.map some).reverse⟩) b List.mem_cons_self

theorem reads_run {s : State} {before : Bytes} (h : s.Reads before) (bytes : Bytes) :
    (run s bytes).Reads (before ++ bytes) := by
  induction bytes generalizing s before with
  | nil => rwa [List.append_nil]
  | cons b bytes ih =>
    have hrest := ih (reads_step h b)
    rwa [List.append_assoc] at hrest

/-- Bytes without a gap are the bytes of what was read. -/
theorem eq_encode_of_items {bytes : Bytes} {s : Text} (h : Utf8.items bytes = s.map some) :
    bytes = encode s := by
  have hreads : (run start bytes).Reads bytes :=
    reads_run (Or.inr ⟨[], [], rfl, rfl, rfl⟩) bytes
  have hclosed : (run start bytes).closed = (s.map some).reverse := by
    rw [← h, items, finish_eq_reverse, List.reverse_reverse]
  have hgapless : none ∉ (run start bytes).closed := by simp [hclosed]
  cases hbegun : (run start bytes).begun with
  | some g =>
    rw [State.closed, hbegun] at hgapless
    exact absurd List.mem_cons_self hgapless
  | none =>
    rw [State.closed, hbegun] at hclosed hgapless
    rcases hreads with hgap | ⟨text, front, hitems, heq, hfront⟩
    · exact absurd hgap hgapless
    · rw [hbegun] at hfront
      obtain rfl : front = [] := hfront
      have hsame : text.map some = s.map some :=
        List.reverse_inj.mp (hitems.symm.trans hclosed)
      have htext : text = s := (List.map_inj_right fun _ _ => Option.some.inj).mp hsame
      rw [heq, List.append_nil, htext]

theorem decode?_eq_some_iff {bytes : Bytes} {s : Text} :
    decode? bytes = some s ↔ bytes = encode s := by
  constructor
  · intro h
    rw [decode?, mapM_eq_some_iff, List.map_id] at h
    exact eq_encode_of_items h
  · rintro rfl
    exact decode?_encode s

theorem filterMap_decode?_encode (names : List Text) :
    (names.map encode).filterMap decode? = names := by
  have hsome : decode? ∘ encode = some := funext decode?_encode
  rw [List.filterMap_map, hsome, List.filterMap_some]

theorem encode_injective {a b : Text} (h : encode a = encode b) : a = b :=
  Option.some.inj ((decode?_encode a).symm.trans (h ▸ decode?_encode b))

/-! ## Cutting at ASCII characters -/

theorem mem_encode_iff {s : Text} {c : Char} (hc : c.toNat < 0x80) :
    UInt8.ofNat c.toNat ∈ encode s ↔ c ∈ s := by
  rw [encode, List.mem_flatMap]
  constructor
  · rintro ⟨d, hd, hmem⟩
    by_cases hsmall : d.toNat < 0x80
    · rw [utf8EncodeChar_ascii hsmall, List.mem_singleton] at hmem
      have hnat := congrArg UInt8.toNat hmem
      rw [toNat_ascii hc, toNat_ascii hsmall] at hnat
      exact Char.toNat_inj.mp hnat ▸ hd
    · have hlarge := forall_mem_utf8EncodeChar (Nat.le_of_not_lt hsmall) _ hmem
      rw [toNat_ascii hc] at hlarge
      omega
  · intro hmem
    exact ⟨c, hmem, by rw [utf8EncodeChar_ascii hc]; exact List.mem_singleton_self _⟩

theorem eq_of_getLast?_encode {c : Char} (hc : c.toNat < 0x80) {s : Text}
    (h : (encode s).getLast? = some (UInt8.ofNat c.toNat)) : ∃ front, s = front ++ [c] := by
  rcases List.eq_nil_or_concat s with rfl | ⟨front, d, rfl⟩
  · exact absurd h (by simp [encode])
  · have hne : encode [d] ≠ [] := fun hnil => nomatch encode_injective (b := []) hnil
    rw [List.concat_eq_append, encode_append, List.getLast?_append,
      List.getLast?_eq_some_getLast hne, Option.some_or] at h
    have hlast : c ∈ [d] := (mem_encode_iff hc).mp (Option.some.inj h ▸ List.getLast_mem hne)
    obtain rfl := List.mem_singleton.mp hlast
    exact ⟨front, List.concat_eq_append⟩

theorem encode_append_cons {c : Char} (hc : c.toNat < 0x80) (a rest : Text) :
    encode (a ++ c :: rest) = encode a ++ UInt8.ofNat c.toNat :: encode rest := by
  rw [encode_append, encode_cons, utf8EncodeChar_ascii hc]
  rfl

theorem encode_join {c : Char} (hc : c.toNat < 0x80) (parts : List Text) :
    encode (Text.join [c] parts) = Text.join [UInt8.ofNat c.toNat] (parts.map encode) := by
  induction parts with
  | nil => rfl
  | cons part parts ih =>
    cases parts with
    | nil => simp [Text.join]
    | cons next parts =>
      have hjoin : Text.join [c] (part :: next :: parts) =
          part ++ c :: Text.join [c] (next :: parts) := by simp [Text.join]
      rw [hjoin, encode_append_cons hc, ih]
      simp [Text.join]

theorem splitOn_encode {c : Char} (hc : c.toNat < 0x80) (s : Text) :
    (encode s).splitOn (UInt8.ofNat c.toNat) = (s.splitOn c).map encode :=
  Text.splitOn_of_append (encode_append_cons hc) (fun _ h hmem => h ((mem_encode_iff hc).mp hmem)) s

end Utf8
end ModuleBoundary
