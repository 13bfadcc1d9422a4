/-
Decoding bytes of any kind, cut at ASCII bytes.

A byte below 0x80 is a character of its own wherever it stands: it continues no
character that has begun, because the machine asks for continuation bytes only, and it
leaves nothing begun behind it.  So bytes can be cut there and decoded in parts
(`decodeLossy_append_cons`), and in the other direction an ASCII character of the text
comes from such a byte (`mem_of_mem_decodeLossy`).  Both rest on what can have begun
(`Begun.Sound`).
-/
import ModuleBoundary.Text.Utf8

namespace ModuleBoundary
namespace Utf8

/-! ## Characters that have begun -/

/-- What has begun asks for a continuation byte, and becomes no ASCII character. -/
structure Begun.Sound (g : Begun) : Prop where
  low : 0x80 ≤ g.low
  missing : 1 ≤ g.missing
  value : 2 ≤ g.value ∨ 2 ≤ g.missing ∧ (1 ≤ g.value ∨ 0x90 ≤ g.low)

def State.Sound (s : State) : Prop := ∀ g, s.begun = some g → g.Sound

theorem sound_none (items : List Item) : State.Sound ⟨none, items⟩ := by
  intro g hg
  exact absurd hg (by simp)

/-- A byte where a character may begin is an ASCII character, begins another one, or is
a gap. -/
theorem first_cases (b : UInt8) :
    (b.toNat < 0x80 ∧ first b = .inr (some (Char.ofNat b.toNat))) ∨ first b = .inr none ∨
      ∃ g : Begun, first b = .inl g ∧ g.Sound := by
  have hsound : ∀ value missing low high, 0x80 ≤ low → 1 ≤ missing →
      (2 ≤ value ∨ 2 ≤ missing ∧ (1 ≤ value ∨ 0x90 ≤ low)) →
      ∃ g : Begun, (.inl ⟨value, missing, low, high⟩ : Begun ⊕ Item) = .inl g ∧ g.Sound :=
    fun value missing low high hlow hmissing hvalue => ⟨_, rfl, hlow, hmissing, hvalue⟩
  fun_cases first b
  · next hb => exact Or.inl ⟨hb, rfl⟩
  all_goals first
    | exact Or.inr (Or.inl rfl)
    | exact Or.inr (Or.inr (hsound _ _ _ _ (by omega) (by omega) (by omega)))

theorem begin_sound (items : List Item) (b : UInt8) : (begin items b).Sound := by
  rw [begin]
  rcases first_cases b with ⟨_, hfirst⟩ | hfirst | ⟨begun, hfirst, hbegun⟩
  · rw [hfirst]
    exact sound_none _
  · rw [hfirst]
    exact sound_none _
  · rw [hfirst]
    intro g hg
    obtain rfl := Option.some.inj hg
    exact hbegun

theorem step_sound {s : State} (hs : s.Sound) (b : UInt8) : (step s b).Sound := by
  rw [step]
  split
  · exact begin_sound _ b
  · next g hg =>
    have hsound := hs g hg
    have hmissing := hsound.missing
    have hvalue := hsound.value
    by_cases hrange : g.low ≤ b.toNat ∧ b.toNat ≤ g.high
    · rw [if_pos hrange]
      by_cases hlast : g.missing = 1
      · simp only [hlast, if_true]
        exact sound_none _
      · simp only [hlast, if_false]
        intro g' hg'
        obtain rfl := Option.some.inj hg'
        constructor <;> dsimp only <;> omega
    · rw [if_neg hrange]
      exact begin_sound _ b

theorem run_sound {s : State} (hs : s.Sound) (bytes : Bytes) : (run s bytes).Sound := by
  induction bytes generalizing s with
  | nil => exact hs
  | cons b bytes ih => exact ih (step_sound hs b)

/-! ## ASCII bytes -/

/-- The items read so far, the last one first, if nothing follows. -/
def State.closed (s : State) : List Item :=
  match s.begun with
  | none => s.items
  | some _ => none :: s.items

theorem finish_eq_reverse (s : State) : s.finish = s.closed.reverse := by
  rw [State.finish, State.closed]
  cases s.begun <;> rfl

/-- An ASCII byte ends what has begun and is a character of its own. -/
theorem step_ascii {s : State} (hs : s.Sound) {b : UInt8} (hb : b.toNat < 0x80) :
    step s b = ⟨none, some (Char.ofNat b.toNat) :: s.closed⟩ := by
  have hfirst : first b = .inr (some (Char.ofNat b.toNat)) := by
    simp only [first, hb, if_true]
  rw [step, State.closed]
  cases hg : s.begun with
  | none => simp only [begin, hfirst]
  | some g =>
    have hlow := (hs g hg).low
    simp only [begin, hfirst]
    rw [if_neg (by omega)]

/-- What has been read is kept, and nothing of it is looked at again. -/
theorem run_items (begun : Option Begun) (items : List Item) (bytes : Bytes) :
    run ⟨begun, items⟩ bytes =
      ⟨(run ⟨begun, []⟩ bytes).begun, (run ⟨begun, []⟩ bytes).items ++ items⟩ := by
  have hstep : ∀ (begun : Option Begun) (items : List Item) (b : UInt8),
      step ⟨begun, items⟩ b =
        ⟨(step ⟨begun, []⟩ b).begun, (step ⟨begun, []⟩ b).items ++ items⟩ := by
    intro begun items b
    cases begun with
    | none => cases h : first b <;> simp [step, begin, h]
    | some g =>
      by_cases hrange : g.low ≤ b.toNat ∧ b.toNat ≤ g.high
      · by_cases hlast : g.missing = 1 <;> simp [step, hrange, hlast]
      · cases h : first b <;> simp [step, begin, hrange, h]
  induction bytes generalizing begun items with
  | nil => rfl
  | cons b bytes ih =>
    show run (step ⟨begun, items⟩ b) bytes =
      ⟨(run (step ⟨begun, []⟩ b) bytes).begun, (run (step ⟨begun, []⟩ b) bytes).items ++ items⟩
    rw [hstep, ih, ih _ (step ⟨begun, []⟩ b).items]
    simp

theorem closed_run (begun : Option Begun) (items : List Item) (bytes : Bytes) :
    (run ⟨begun, items⟩ bytes).closed = (run ⟨begun, []⟩ bytes).closed ++ items := by
  rw [run_items]
  simp only [State.closed]
  split <;> rfl

/-- Bytes are decoded in parts at an ASCII byte. -/
theorem items_append_cons (a rest : Bytes) {b : UInt8} (hb : b.toNat < 0x80) :
    items (a ++ b :: rest) = items a ++ some (Char.ofNat b.toNat) :: items rest := by
  have hcut : run start (a ++ b :: rest) =
      run ⟨none, some (Char.ofNat b.toNat) :: (run start a).closed⟩ rest := by
    have hstep := step_ascii (run_sound (sound_none []) a) hb
    rw [run_append]
    exact congrArg (run · rest) hstep
  rw [items, items, items, finish_eq_reverse, finish_eq_reverse, finish_eq_reverse, hcut,
    closed_run]
  simp [start]

theorem decodeLossy_append_cons (a rest : Bytes) {b : UInt8} (hb : b.toNat < 0x80) :
    decodeLossy (a ++ b :: rest) =
      decodeLossy a ++ Char.ofNat b.toNat :: decodeLossy rest := by
  rw [decodeLossy, decodeLossy, decodeLossy, items_append_cons a rest hb]
  simp

/-! ## ASCII characters -/

/-- A number that is no character counts as the character zero. -/
theorem toNat_ofNat (n : Nat) : (Char.ofNat n).toNat = n ∨ (Char.ofNat n).toNat = 0 := by
  by_cases hn : n.isValidChar
  · left
    rw [Char.ofNat, dif_pos hn]
    rfl
  · right
    rw [Char.ofNat, dif_neg hn]
    rfl

theorem begin_char {items : List Item} {b : UInt8} {c : Char}
    (hnul : c.toNat ≠ 0) (h : some c ∈ (begin items b).items) :
    some c ∈ items ∨ c.toNat = b.toNat := by
  rw [begin] at h
  rcases first_cases b with ⟨_, hfirst⟩ | hfirst | ⟨begun, hfirst, _⟩
  · rw [hfirst] at h
    rcases List.mem_cons.mp h with heq | h
    · rw [Option.some.inj heq] at hnul ⊢
      exact Or.inr ((toNat_ofNat _).resolve_right hnul)
    · exact Or.inl h
  · rw [hfirst] at h
    exact Or.inl ((List.mem_cons.mp h).resolve_left (by simp))
  · rw [hfirst] at h
    exact Or.inl h

/-- A step writes no ASCII character but the one of its byte. -/
theorem step_char {s : State} (hs : s.Sound) {b : UInt8} {c : Char} (hc : c.toNat < 0x80)
    (hnul : c.toNat ≠ 0) (h : some c ∈ (step s b).items) : some c ∈ s.items ∨ c.toNat = b.toNat := by
  rw [step] at h
  split at h
  · exact begin_char hnul h
  · next g hg =>
    have hvalue := (hs g hg).value
    by_cases hrange : g.low ≤ b.toNat ∧ b.toNat ≤ g.high
    · rw [if_pos hrange] at h
      by_cases hlast : g.missing = 1
      · simp only [hlast, if_true] at h
        rcases List.mem_cons.mp h with heq | h
        · -- The value that is complete now is above the ASCII characters.
          rw [Option.some.inj heq] at hc hnul
          have hcomplete := (toNat_ofNat _).resolve_right hnul
          omega
        · exact Or.inl h
      · simp only [hlast, if_false] at h
        exact Or.inl h
    · rw [if_neg hrange] at h
      exact (begin_char hnul h).imp_left fun hmem => by simpa using hmem

theorem run_char {s : State} (hs : s.Sound) {bytes : Bytes} {c : Char} (hc : c.toNat < 0x80)
    (hnul : c.toNat ≠ 0) (h : some c ∈ (run s bytes).items) :
    some c ∈ s.items ∨ ∃ b ∈ bytes, b.toNat = c.toNat := by
  induction bytes generalizing s with
  | nil => exact Or.inl h
  | cons b bytes ih =>
    rcases ih (step_sound hs b) h with h | ⟨b', hb', heq⟩
    · rcases step_char hs hc hnul h with h | heq
      · exact Or.inl h
      · exact Or.inr ⟨b, List.mem_cons_self, heq.symm⟩
    · exact Or.inr ⟨b', List.mem_cons_of_mem b hb', heq⟩

/-- An ASCII character of the text is a byte of its own. -/
theorem mem_of_mem_decodeLossy {bytes : Bytes} {c : Char} (hc : c.toNat < 0x80)
    (hnul : c.toNat ≠ 0) (h : c ∈ decodeLossy bytes) : ∃ b ∈ bytes, b.toNat = c.toNat := by
  obtain ⟨item, hitem, heq⟩ := List.mem_map.mp h
  cases item with
  | none =>
    have hgap : c.toNat = 0xFFFD := by rw [← heq]; rfl
    omega
  | some d =>
    obtain rfl : d = c := heq
    rw [items, finish_eq_reverse, List.mem_reverse, State.closed] at hitem
    have hmem : some d ∈ (run start bytes).items := by
      split at hitem
      · exact hitem
      · simpa using hitem
    exact (run_char (sound_none []) hc hnul hmem).resolve_left (by simp)

theorem not_mem_decodeLossy {bytes : Bytes} {b : UInt8} {c : Char} (hc : c.toNat < 0x80)
    (hnul : c.toNat ≠ 0) (hb : b.toNat = c.toNat) (h : b ∉ bytes) : c ∉ decodeLossy bytes := by
  intro hmem
  obtain ⟨b', hb', heq⟩ := mem_of_mem_decodeLossy hc hnul hmem
  rw [← hb] at heq
  exact h (UInt8.toNat_inj.mp heq ▸ hb')

end Utf8
end ModuleBoundary
