/-
The reader of JSON undoes the writer.

`ofText?_line_toText` says that the text of a value reads as this value.  The lemmas on the way
are about a piece of written text with any other text behind it, because that is how the
reader meets it: a character of a string, a string, a number, and then values, items and
fields by one induction on values.  Fuel never runs out, because every call is paid by a
character that the writer put there.
-/
import Mathlib.Data.List.Basic
import Mathlib.Data.List.DropRight
import Mathlib.Tactic.SplitIfs
import ModuleBoundary.Json.Reader

namespace ModuleBoundary
namespace Json

/-! ## Strings -/

theorem plainEscape?_of_shortEscape? {c e : Char} (h : shortEscape? c = some e) :
    plainEscape? e = some c ∧ e ≠ 'u' := by
  unfold shortEscape? at h
  split_ifs at h with h1 h2 h3 h4 h5
  all_goals
    obtain rfl := Option.some.inj h
    subst c
    decide

theorem hexValue?_digitChar : ∀ d < 16, Text.hexValue? (Nat.digitChar d) = some d := by decide

theorem takeUnit?_of_lt {n : Nat} (h : n < 0x20) (rest : Text) :
    takeUnit? ('0' :: '0' :: Nat.digitChar (n / 16) :: Nat.digitChar (n % 16) :: rest) =
      some (n, rest) := by
  have hzero : Text.hexValue? '0' = some 0 := by decide
  have hhigh := hexValue?_digitChar (n / 16) (by omega)
  have hlow := hexValue?_digitChar (n % 16) (by omega)
  have hn : ((16 * 0 + 0) * 16 + n / 16) * 16 + n % 16 = n := by omega
  simp only [takeUnit?, hzero, hhigh, hlow, Option.bind_eq_bind, Option.bind_some, hn]

theorem takeChar?_writeChar (c : Char) (rest : Text) :
    takeChar? (writeChar c ++ rest) = some (c, rest) := by
  by_cases hquote : c = '"'
  · rw [hquote]
    rfl
  by_cases hback : c = '\\'
  · rw [hback]
    rfl
  by_cases hcontrol : c.toNat < 0x20
  · rw [writeChar, if_neg hquote, if_neg hback, if_pos hcontrol]
    cases hshort : shortEscape? c with
    | some e =>
      obtain ⟨hplain, hu⟩ := plainEscape?_of_shortEscape? hshort
      show takeChar? ('\\' :: e :: rest) = some (c, rest)
      simp [takeChar?, hu, hplain]
    | none =>
      have hunit := takeUnit?_of_lt hcontrol rest
      have hlow : ¬(0xD800 ≤ c.toNat ∧ c.toNat < 0xDC00) := by omega
      simp only [List.cons_append, List.nil_append, takeChar?, if_true, hunit, Option.bind_some,
        joinUnits?, if_neg hlow, Text.charOf?_toNat, Option.map_some]
  · rw [writeChar, if_neg hquote, if_neg hback, if_neg hcontrol]
    have hshown : ¬(c = '"' ∨ c.toNat < 0x20) := not_or.mpr ⟨hquote, hcontrol⟩
    show takeChar? (c :: rest) = some (c, rest)
    simp only [takeChar?, if_neg hback, if_neg hshown]

theorem writeChar_eq_cons (c : Char) : ∃ d s, writeChar c = d :: s ∧ d ≠ '"' := by
  rw [writeChar]
  by_cases hquote : c = '"'
  · exact ⟨'\\', ['"'], by rw [if_pos hquote], by decide⟩
  by_cases hback : c = '\\'
  · exact ⟨'\\', ['\\'], by rw [if_neg hquote, if_pos hback], by decide⟩
  rw [if_neg hquote, if_neg hback]
  by_cases hcontrol : c.toNat < 0x20
  · rw [if_pos hcontrol]
    cases shortEscape? c with
    | some e => exact ⟨'\\', [e], rfl, by decide⟩
    | none => exact ⟨'\\', _, rfl, by decide⟩
  · exact ⟨c, [], by rw [if_neg hcontrol], hquote⟩

theorem takeString?_writeChars (s rest : Text) {fuel : Nat}
    (h : (s.flatMap writeChar).length < fuel) :
    takeString? fuel (s.flatMap writeChar ++ '"' :: rest) = some (s, rest) := by
  induction s generalizing fuel with
  | nil =>
    obtain ⟨fuel, rfl⟩ := Nat.exists_eq_succ_of_ne_zero (Nat.ne_zero_of_lt h)
    rfl
  | cons c s ih =>
    obtain ⟨fuel, rfl⟩ := Nat.exists_eq_succ_of_ne_zero (Nat.ne_zero_of_lt h)
    obtain ⟨d, more, hd, hne⟩ := writeChar_eq_cons c
    have htake := takeChar?_writeChar c (s.flatMap writeChar ++ '"' :: rest)
    have hlength : (s.flatMap writeChar).length < fuel := by
      rw [List.flatMap_cons, List.length_append, hd, List.length_cons] at h
      omega
    rw [List.flatMap_cons, List.append_assoc]
    rw [hd, List.cons_append] at htake ⊢
    rw [takeString?]
    · simp only [htake, Option.bind_eq_bind, Option.bind_some, ih hlength]
    · intro behind heq
      exact hne (List.cons.inj heq).1

theorem writeString_append (s rest : Text) :
    writeString s ++ rest = '"' :: (s.flatMap writeChar ++ '"' :: rest) := by
  simp [writeString]

/-- The rest of a written string, from behind its opening quote. -/
theorem takeString?_writeString (s rest : Text) :
    takeString? ((s.flatMap writeChar ++ '"' :: rest).length + 1)
        (s.flatMap writeChar ++ '"' :: rest) =
      some (s, rest) := by
  refine takeString?_writeChars s rest ?_
  rw [List.length_append]
  omega

/-! ## Numbers -/

/-- No digit follows. -/
def Stops (rest : Text) : Prop := ∀ c, rest.head? = some c → c.isDigit = false

theorem stops_cons {c : Char} {rest : Text} (h : c.isDigit = false) : Stops (c :: rest) := by
  intro d hd
  rw [← Option.some.inj hd]
  exact h

theorem head?_toDigits {n : Nat} (h : (Nat.toDigits 10 n).head? = some '0') : n = 0 := by
  induction n using Nat.strongRecOn with
  | ind n ih =>
    rw [Nat.toDigits_eq_if (by decide)] at h
    by_cases hn : n < 10
    · rw [if_pos hn] at h
      exact Nat.digitChar_eq_zero.mp (Option.some.inj h)
    · rw [if_neg hn, List.head?_append_of_ne_nil _ Nat.toDigits_ne_nil] at h
      have hzero := ih (n / 10) (by omega) h
      omega

theorem takeNumber?_ofNat (n : Nat) {rest : Text} (hrest : Stops rest) :
    takeNumber? (Text.ofNat n ++ rest) = some (n, rest) := by
  have hdigit : ∀ c ∈ Nat.toDigits 10 n, c.isDigit = true := fun c hc =>
    Nat.isDigit_of_mem_toDigits (by decide) (by decide) hc
  have hstop : rest.takeWhile Char.isDigit = [] ∧ rest.dropWhile Char.isDigit = rest := by
    cases rest with
    | nil => exact ⟨rfl, rfl⟩
    | cons c rest => simp [hrest c rfl]
  have htake : (Nat.toDigits 10 n ++ rest).takeWhile Char.isDigit = Nat.toDigits 10 n := by
    rw [List.takeWhile_append_of_pos hdigit, hstop.1, List.append_nil]
  have hdrop : (Nat.toDigits 10 n ++ rest).dropWhile Char.isDigit = rest := by
    rw [List.dropWhile_append_of_pos hdigit, hstop.2]
  have hvalue : (Nat.toDigits 10 n).foldl (fun n c => 10 * n + (c.toNat - 48)) 0 = n :=
    Nat.ofDigitChars_ten_toDigits
  have hlead : ¬(Nat.toDigits 10 n = [] ∨
      (Nat.toDigits 10 n).head? = some '0' ∧ (Nat.toDigits 10 n).length ≠ 1) := by
    rintro (hnil | ⟨hzero, hlength⟩)
    · exact Nat.toDigits_ne_nil hnil
    · rw [head?_toDigits hzero] at hlength
      exact hlength rfl
  simp only [takeNumber?, Text.ofNat, htake, hdrop, hvalue, if_neg hlead]

/-! ## Blanks -/

theorem skipSpace_cons {c : Char} {s : Text} (h : isSpace c = false) :
    skipSpace (c :: s) = c :: s := by
  rw [skipSpace, List.dropWhile_cons_of_neg (by simp [h])]

theorem skipSpace_append {gap s : Text} (h : ∀ c ∈ gap, isSpace c = true) :
    skipSpace (gap ++ s) = skipSpace s :=
  List.dropWhile_append_of_pos h

theorem isSpace_of_mem_newline {depth : Nat} {c : Char} (h : c ∈ newline depth) :
    isSpace c = true := by
  rcases List.mem_cons.mp h with rfl | h
  · decide
  · rw [List.eq_of_mem_replicate h]
    decide

theorem skipSpace_newline (depth : Nat) (s : Text) : skipSpace (newline depth ++ s) = skipSpace s :=
  skipSpace_append fun _ h => isSpace_of_mem_newline h

theorem skipSpace_skipSpace (s : Text) : skipSpace (skipSpace s) = skipSpace s :=
  List.dropWhile_idempotent (p := isSpace) s

theorem isSpace_of_isDigit {c : Char} (h : c.isDigit = true) : isSpace c = false := by
  cases hspace : isSpace c with
  | false => rfl
  | true =>
    simp only [isSpace, Bool.or_eq_true, beq_iff_eq] at hspace
    rcases hspace with ((rfl | rfl) | rfl) | rfl <;> exact absurd h (by decide)

theorem ofNat_eq_cons (n : Nat) : ∃ c s, Text.ofNat n = c :: s ∧ c.isDigit = true := by
  obtain ⟨c, s, hdigits⟩ := List.exists_cons_of_ne_nil (Nat.toDigits_ne_nil (n := n) (b := 10))
  have hmem : c ∈ Nat.toDigits 10 n := by
    rw [hdigits]
    exact List.mem_cons_self
  exact ⟨c, s, hdigits, Nat.isDigit_of_mem_toDigits (by decide) (by decide) hmem⟩

/-- A value starts with a character of its own. -/
theorem write_eq_cons (depth : Nat) (v : Json) :
    ∃ c s, write depth v = c :: s ∧ isSpace c = false ∧ c ≠ ']' := by
  cases v with
  | null => exact ⟨_, _, rfl, by decide, by decide⟩
  | bool b => cases b <;> exact ⟨_, _, rfl, by decide, by decide⟩
  | number n =>
    obtain ⟨c, s, hdigits, hdigit⟩ := ofNat_eq_cons n
    refine ⟨c, s, hdigits, isSpace_of_isDigit hdigit, ?_⟩
    rintro rfl
    exact absurd hdigit (by decide)
  | string s => exact ⟨_, _, rfl, by decide, by decide⟩
  | array items => cases items <;> exact ⟨'[', _, rfl, by decide, by decide⟩
  | object fields => cases fields <;> exact ⟨'\x7b', _, rfl, by decide, by decide⟩

theorem read?_skipSpace (fuel : Nat) (s : Text) : read? fuel (skipSpace s) = read? fuel s := by
  cases fuel with
  | zero => rfl
  | succ fuel => rw [read?, read?, skipSpace_skipSpace]

theorem read?_congr {fuel : Nat} {a b : Text} (h : skipSpace a = skipSpace b) :
    read? fuel a = read? fuel b := by
  rw [← read?_skipSpace fuel a, h, read?_skipSpace]

theorem read?_gap (fuel : Nat) (s : Text) : read? fuel (' ' :: s) = read? fuel s := read?_congr rfl

theorem readItems?_congr {fuel : Nat} {a b : Text} (h : skipSpace a = skipSpace b) :
    readItems? fuel a = readItems? fuel b := by
  cases fuel with
  | zero => rfl
  | succ fuel => rw [readItems?, readItems?, read?_congr h]

theorem readFields?_congr {fuel : Nat} {a b : Text} (h : skipSpace a = skipSpace b) :
    readFields? fuel a = readFields? fuel b := by
  cases fuel with
  | zero => rfl
  | succ fuel => rw [readFields?, readFields?, h]

/-! ## One step of the reader -/

theorem read?_number (n : Nat) {fuel : Nat} {rest : Text} (hrest : Stops rest) :
    read? (fuel + 1) (Text.ofNat n ++ rest) = some (.number n, rest) := by
  obtain ⟨c, s, hdigits, hdigit⟩ := ofNat_eq_cons n
  have hne : ∀ d : Char, d.isDigit = false → c ≠ d := by
    rintro d hd rfl
    rw [hdigit] at hd
    exact nomatch hd
  have hnumber := takeNumber?_ofNat n hrest
  rw [hdigits, List.cons_append] at hnumber ⊢
  rw [read?, skipSpace_cons (isSpace_of_isDigit hdigit)]
  simp only [if_neg (hne '"' rfl), if_neg (hne '[' rfl), if_neg (hne '\x7b' rfl),
    if_neg (hne 'n' rfl), if_neg (hne 't' rfl), if_neg (hne 'f' rfl), hnumber, Option.map_some]

theorem read?_string (s rest : Text) (fuel : Nat) :
    read? (fuel + 1) (writeString s ++ rest) = some (.string s, rest) := by
  rw [writeString_append, read?, skipSpace_cons (by decide)]
  simp only [if_true, takeString?_writeString, Option.map_some]

theorem read?_bracket {fuel : Nat} {s more : Text} {c : Char} (h : skipSpace s = c :: more)
    (hc : c ≠ ']') :
    read? (fuel + 1) ('[' :: s) = (readItems? fuel s).map fun r => (.array r.1, r.2) := by
  have hitems : readItems? fuel (c :: more) = readItems? fuel s :=
    readItems?_congr (by rw [← h, skipSpace_skipSpace])
  rw [read?, skipSpace_cons (by decide)]
  simp [h, hc, hitems]

theorem read?_brace {fuel : Nat} {s more : Text} {c : Char} (h : skipSpace s = c :: more)
    (hc : c ≠ '\x7d') :
    read? (fuel + 1) ('\x7b' :: s) = (readFields? fuel s).map fun r => (.object r.1, r.2) := by
  have hfields : readFields? fuel (c :: more) = readFields? fuel s :=
    readFields?_congr (by rw [← h, skipSpace_skipSpace])
  rw [read?, skipSpace_cons (by decide)]
  simp [h, hc, hfields]

section

variable {fuel : Nat} {s value behind rest name : Text} {v : Json}

theorem readItems?_comma {items : List Json} (hvalue : read? fuel s = some (v, ',' :: behind))
    (hitems : readItems? fuel behind = some (items, rest)) :
    readItems? (fuel + 1) s = some (v :: items, rest) := by
  have hcomma : skipSpace (',' :: behind) = ',' :: behind := skipSpace_cons (by decide)
  simp [readItems?, hvalue, hcomma, hitems]

theorem readItems?_close (hvalue : read? fuel s = some (v, behind))
    (hclose : skipSpace behind = ']' :: rest) : readItems? (fuel + 1) s = some ([v], rest) := by
  simp [readItems?, hvalue, hclose]

theorem readFields?_comma {fields : List (Text × Json)}
    (hname : skipSpace s = writeString name ++ ':' :: value)
    (hvalue : read? fuel value = some (v, ',' :: behind))
    (hfields : readFields? fuel behind = some (fields, rest)) :
    readFields? (fuel + 1) s = some ((name, v) :: fields, rest) := by
  have hquoted := takeString?_writeString name (':' :: value)
  have hcolon : skipSpace (':' :: value) = ':' :: value := skipSpace_cons (by decide)
  have hcomma : skipSpace (',' :: behind) = ',' :: behind := skipSpace_cons (by decide)
  rw [readFields?, hname, writeString_append]
  simp only [hquoted, hcolon, hvalue, hcomma, hfields, Option.bind_eq_bind, Option.bind_some]

theorem readFields?_close (hname : skipSpace s = writeString name ++ ':' :: value)
    (hvalue : read? fuel value = some (v, behind)) (hclose : skipSpace behind = '\x7d' :: rest) :
    readFields? (fuel + 1) s = some ([(name, v)], rest) := by
  have hquoted := takeString?_writeString name (':' :: value)
  have hcolon : skipSpace (':' :: value) = ':' :: value := skipSpace_cons (by decide)
  rw [readFields?, hname, writeString_append]
  simp only [hquoted, hcolon, hvalue, hclose, Option.bind_eq_bind, Option.bind_some]

end

/-! ## Values -/

theorem stops_newline (depth : Nat) (s : Text) : Stops (newline depth ++ s) :=
  stops_cons (by decide)

theorem length_newline (depth : Nat) : (newline depth).length = 2 * depth + 1 := by
  simp [newline]

section

variable (depth : Nat) (item next : Json) (items : List Json) (name : Text)
  (field : Text × Json) (fields : List (Text × Json))

theorem writeItems_last : writeItems depth [item] = newline depth ++ write depth item := by
  simp [writeItems]

theorem writeItems_more : writeItems depth (item :: next :: items) =
    newline depth ++ (write depth item ++ ',' :: writeItems depth (next :: items)) := by
  rw [writeItems]
  simp

theorem writeFields_last : writeFields depth [(name, item)] =
    newline depth ++ (writeString name ++ ':' :: ' ' :: write depth item) := by
  simp [writeFields]

theorem writeFields_more : writeFields depth ((name, item) :: field :: fields) =
    newline depth ++ (writeString name ++ ':' :: ' ' :: (write depth item ++
      ',' :: writeFields depth (field :: fields))) := by
  rw [writeFields]
  simp

theorem write_array : write depth (.array (item :: items)) =
    '[' :: (writeItems (depth + 1) (item :: items) ++ (newline depth ++ [']'])) := by
  simp [write]

theorem write_object : write depth (.object (field :: fields)) =
    '\x7b' :: (writeFields (depth + 1) (field :: fields) ++ (newline depth ++ ['\x7d'])) := by
  simp [write]

end

/-- A name behind its line stands in front. -/
theorem skipSpace_name (depth : Nat) (name behind : Text) :
    skipSpace (newline depth ++ (writeString name ++ behind)) = writeString name ++ behind := by
  rw [skipSpace_newline, writeString, List.cons_append]
  exact skipSpace_cons (by decide)

theorem skipSpace_writeItems (depth : Nat) (item : Json) (items : List Json) (behind : Text) :
    ∃ c more, skipSpace (writeItems depth (item :: items) ++ behind) = c :: more ∧ c ≠ ']' := by
  obtain ⟨c, s, hwrite, hspace, hclose⟩ := write_eq_cons depth item
  rw [writeItems, hwrite, List.append_assoc, skipSpace_newline]
  exact ⟨c, _, skipSpace_cons hspace, hclose⟩

theorem skipSpace_writeFields (depth : Nat) (field : Text × Json) (fields : List (Text × Json))
    (behind : Text) : ∃ more, skipSpace (writeFields depth (field :: fields) ++ behind) =
      '"' :: more := by
  rw [writeFields, List.append_assoc, List.append_assoc, skipSpace_name, writeString]
  exact ⟨_, rfl⟩

-- Values, items and fields go by one induction.  What carries it is that the fuel is no
-- less than the length of the text to be read.
mutual

/-- Reading a written value gives it back, whatever stands behind it. -/
theorem read?_write (v : Json) (depth fuel : Nat) (rest : Text)
    (hfuel : (write depth v).length ≤ fuel) (hrest : Stops rest) :
    read? fuel (write depth v ++ rest) = some (v, rest) := by
  obtain ⟨c, s, hwrite, _, _⟩ := write_eq_cons depth v
  obtain ⟨fuel, rfl⟩ : ∃ k, fuel = k + 1 := by
    rw [hwrite, List.length_cons] at hfuel
    exact ⟨fuel - 1, by omega⟩
  match v with
  | .null => rfl
  | .bool true => rfl
  | .bool false => rfl
  | .number n => exact read?_number n hrest
  | .string s => exact read?_string s rest fuel
  | .array [] => rfl
  | .object [] => rfl
  | .array (item :: items) =>
    obtain ⟨c, more, hskip, hclose⟩ :=
      skipSpace_writeItems (depth + 1) item items (newline depth ++ ']' :: rest)
    have hlength : (writeItems (depth + 1) (item :: items)).length ≤ fuel := by
      simp only [write_array, List.length_cons, List.length_append] at hfuel
      omega
    have hitems := readItems?_writeItems (item :: items) (List.cons_ne_nil item items)
      (depth + 1) depth fuel rest hlength
    rw [write_array, List.cons_append, List.append_assoc, List.append_assoc,
      List.singleton_append, read?_bracket hskip hclose, hitems, Option.map_some]
  | .object (field :: fields) =>
    obtain ⟨more, hskip⟩ :=
      skipSpace_writeFields (depth + 1) field fields (newline depth ++ '\x7d' :: rest)
    have hlength : (writeFields (depth + 1) (field :: fields)).length ≤ fuel := by
      simp only [write_object, List.length_cons, List.length_append] at hfuel
      omega
    have hfields := readFields?_writeFields (field :: fields) (List.cons_ne_nil field fields)
      (depth + 1) depth fuel rest hlength
    rw [write_object, List.cons_append, List.append_assoc, List.append_assoc,
      List.singleton_append, read?_brace hskip (by decide), hfields, Option.map_some]

theorem readItems?_writeItems (items : List Json) (hne : items ≠ []) (depth close fuel : Nat)
    (rest : Text) (hfuel : (writeItems depth items).length ≤ fuel) :
    readItems? fuel (writeItems depth items ++ (newline close ++ ']' :: rest)) =
      some (items, rest) := by
  match items with
  | [] => exact absurd rfl hne
  | [item] =>
    rw [writeItems_last] at hfuel ⊢
    rw [List.length_append, length_newline] at hfuel
    obtain ⟨fuel, rfl⟩ : ∃ k, fuel = k + 1 := ⟨fuel - 1, by omega⟩
    have hvalue := read?_write item depth fuel (newline close ++ ']' :: rest) (by omega)
      (stops_newline close _)
    rw [List.append_assoc]
    refine readItems?_close ((read?_congr (skipSpace_newline depth _)).trans hvalue) ?_
    rw [skipSpace_newline, skipSpace_cons (by decide)]
  | item :: next :: items =>
    rw [writeItems_more] at hfuel ⊢
    simp only [List.length_append, List.length_cons, length_newline] at hfuel
    obtain ⟨fuel, rfl⟩ : ∃ k, fuel = k + 1 := ⟨fuel - 1, by omega⟩
    have hvalue := read?_write item depth fuel
      (',' :: (writeItems depth (next :: items) ++ (newline close ++ ']' :: rest))) (by omega)
      (stops_cons (by decide))
    have hitems := readItems?_writeItems (next :: items) (List.cons_ne_nil next items) depth close
      fuel rest (by omega)
    rw [List.append_assoc, List.append_assoc, List.cons_append]
    exact readItems?_comma ((read?_congr (skipSpace_newline depth _)).trans hvalue) hitems

theorem readFields?_writeFields (fields : List (Text × Json)) (hne : fields ≠ [])
    (depth close fuel : Nat) (rest : Text) (hfuel : (writeFields depth fields).length ≤ fuel) :
    readFields? fuel (writeFields depth fields ++ (newline close ++ '\x7d' :: rest)) =
      some (fields, rest) := by
  match fields with
  | [] => exact absurd rfl hne
  | [(name, value)] =>
    rw [writeFields_last] at hfuel ⊢
    simp only [List.length_append, List.length_cons, length_newline] at hfuel
    obtain ⟨fuel, rfl⟩ : ∃ k, fuel = k + 1 := ⟨fuel - 1, by omega⟩
    have hvalue := read?_write value depth fuel (newline close ++ '\x7d' :: rest) (by omega)
      (stops_newline close _)
    simp only [List.append_assoc, List.cons_append]
    refine readFields?_close (skipSpace_name depth name _) ((read?_gap fuel _).trans hvalue) ?_
    rw [skipSpace_newline, skipSpace_cons (by decide)]
  | (name, value) :: next :: fields =>
    rw [writeFields_more] at hfuel ⊢
    simp only [List.length_append, List.length_cons, length_newline] at hfuel
    obtain ⟨fuel, rfl⟩ : ∃ k, fuel = k + 1 := ⟨fuel - 1, by omega⟩
    have hvalue := read?_write value depth fuel
      (',' :: (writeFields depth (next :: fields) ++ (newline close ++ '\x7d' :: rest)))
      (by omega) (stops_cons (by decide))
    have hfields := readFields?_writeFields (next :: fields) (List.cons_ne_nil next fields) depth
      close fuel rest (by omega)
    simp only [List.append_assoc, List.cons_append]
    exact readFields?_comma (skipSpace_name depth name _) ((read?_gap fuel _).trans hvalue) hfields

end

/-! ## Texts -/

/-- The text of a value, with a line feed behind it, reads as this value. -/
theorem ofText?_line_toText (v : Json) : ofText? (Text.line (toText v)) = some v := by
  have hread := read?_write v 0 ((Text.line (toText v)).length + 1) ['\n']
    (by simp only [Text.line, toText, List.length_append]; omega) (stops_cons (by decide))
  have hread' : read? ((Text.line (toText v)).length + 1) (Text.line (toText v)) =
      some (v, ['\n']) := hread
  have hend : skipSpace ['\n'] = [] := by decide
  simp only [ofText?, hread', hend, Option.bind_eq_bind, Option.bind_some, if_true]

end Json
end ModuleBoundary
