/-
Reading two lists of arguments side by side.

Arguments are read one after the other, so what a change to them does can be followed from
the place of the change on.  In front of it both readings are the same
(`GivenOptions.read_append`), and behind it they go alike for as long as the options read so
far do (`GivenOptions.Simulation`).  Two changes are followed here: another value of the
format, which leaves an invocation what it is up to the format, and one more switch for a
verbose run, which may only be refused.
-/
import ModuleBoundary.CommandLine.Options

namespace ModuleBoundary

/-! ## Two readings -/

inductive Invocation.SameEnd : Invocation → Invocation → Prop
  | help (long : Bool) : SameEnd (.help long) (.help long)
  | version : SameEnd .version .version
  | rejected (cause cause' : UsageError) : SameEnd (.rejected cause) (.rejected cause')

/-- Two readings go on with related results, or they end alike.  Unless this is `strict`,
one of them may end in any way while the other goes on. -/
def Alike (strict : Prop) {α β : Type} (R : α → β → Prop) :
    Except Invocation α → Except Invocation β → Prop
  | .ok a, .ok b => R a b
  | .error i, .error j => strict → i.SameEnd j
  | _, _ => ¬strict

namespace Alike

variable {strict : Prop} {α β γ δ : Type} {R : α → β → Prop} {T : γ → δ → Prop}

theorem bind {x : Except Invocation α} {y : Except Invocation β} {f : α → Except Invocation γ}
    {k : β → Except Invocation δ} (h : Alike strict R x y)
    (hnext : ∀ a b, R a b → Alike strict T (f a) (k b)) : Alike strict T (x >>= f) (y >>= k) := by
  cases x with
  | error i =>
    cases y with
    | error j => exact h
    | ok b =>
      show Alike strict T (.error i) (k b)
      cases k b with
      | error j => exact fun hstrict => absurd hstrict h
      | ok d => exact h
  | ok a =>
    cases y with
    | error j =>
      show Alike strict T (f a) (.error j)
      cases f a with
      | error i => exact fun hstrict => absurd hstrict h
      | ok c => exact h
    | ok b => exact hnext a b h

theorem map {x : Except Invocation α} {y : Except Invocation β} {f : α → γ} {k : β → δ}
    (h : Alike strict R x y) (hnext : ∀ a b, R a b → T (f a) (k b)) :
    Alike strict T (x.map f) (y.map k) := by
  cases x with
  | error i => cases y <;> exact h
  | ok a =>
    cases y with
    | error j => exact h
    | ok b => exact hnext a b h

theorem mono {R' : α → β → Prop} {x : Except Invocation α} {y : Except Invocation β}
    (h : Alike strict R x y) (himp : ∀ a b, R a b → R' a b) : Alike strict R' x y := by
  cases x with
  | error i => cases y <;> exact h
  | ok a =>
    cases y with
    | error j => exact h
    | ok b => exact himp a b h

end Alike

namespace GivenOptions

/-! ## Options that are read alike -/

/-- Whatever options are related, they are still related when one more is read. -/
structure Simulation (strict : Prop) (S : GivenOptions → GivenOptions → Prop) : Prop where
  turnOn {g h : GivenOptions} : S g h → ∀ asWord switch,
    Alike strict S (g.turnOn asWord switch) (h.turnOn asWord switch)
  set {g h : GivenOptions} : S g h → ∀ setting value,
    Alike strict S (g.set setting value) (h.set setting value)

def Awaiting (S : GivenOptions → GivenOptions → Prop) (a b : GivenOptions × Option Setting) : Prop :=
  S a.1 b.1 ∧ a.2 = b.2

namespace Simulation

variable {strict : Prop} {S : GivenOptions → GivenOptions → Prop} {g h : GivenOptions}

theorem setThen (hS : Simulation strict S) (hgh : S g h) (setting : Setting) (value : Text) :
    Alike strict (Awaiting S) ((g.set setting value).map fun g => (g, Option.none))
      ((h.set setting value).map fun g => (g, Option.none)) :=
  (hS.set hgh setting value).map fun _ _ hS' => ⟨hS', rfl⟩

theorem takeLetters (hS : Simulation strict S) (hgh : S g h) (letters : Text) :
    Alike strict (Awaiting S) (g.takeLetters letters) (h.takeLetters letters) := by
  induction letters generalizing g h with
  | nil => exact ⟨hgh, rfl⟩
  | cons c s ih =>
    rw [GivenOptions.takeLetters, GivenOptions.takeLetters]
    cases Setting.ofLetter? c with
    | some setting =>
      match s with
      | [] => exact ⟨hgh, rfl⟩
      | d :: value =>
        by_cases hd : d = '='
        · subst hd
          exact hS.setThen hgh setting value
        · simp only
          split
          · next heq => exact absurd heq (List.cons_ne_nil d value)
          · next heq => exact absurd (List.cons.inj heq).1 hd
          · exact hS.setThen hgh setting (d :: value)
    | none =>
      cases Switch.ofLetter? c with
      | some switch =>
        exact (hS.turnOn hgh false switch).bind fun _ _ hS' => ih hS'
      | none => exact fun _ => .rejected _ _

theorem takeWord (hS : Simulation strict S) (hgh : S g h) (name : Text) (value : Option Text) :
    Alike strict (Awaiting S) (g.takeWord name value) (h.takeWord name value) := by
  unfold GivenOptions.takeWord
  cases Setting.ofName? name with
  | some setting =>
    cases value with
    | some value => exact hS.setThen hgh setting value
    | none => exact ⟨hgh, rfl⟩
  | none =>
    cases Switch.ofName? name with
    | some switch =>
      cases value with
      | some value => exact fun _ => .rejected _ _
      | none => exact (hS.turnOn hgh true switch).map fun _ _ hS' => ⟨hS', rfl⟩
    | none => exact fun _ => .rejected _ _

theorem take (hS : Simulation strict S) (hgh : S g h) (argument : Text) :
    Alike strict (Awaiting S) (g.take argument) (h.take argument) := by
  unfold GivenOptions.take
  split
  · next word =>
    cases Text.cut? '=' word with
    | some cut => exact hS.takeWord hgh cut.1 (some cut.2)
    | none => exact hS.takeWord hgh word .none
  · next c letters _ => exact hS.takeLetters hgh (c :: letters)
  · exact fun _ => .rejected _ _

theorem read (hS : Simulation strict S) (hgh : S g h) (awaited : Option Setting)
    (arguments : List Text) :
    Alike strict S (g.read awaited arguments) (h.read awaited arguments) := by
  induction arguments generalizing g h awaited with
  | nil =>
    cases awaited with
    | none => exact hgh
    | some setting => exact fun _ => .rejected _ _
  | cons argument rest ih =>
    cases awaited with
    | some setting =>
      rw [GivenOptions.read, GivenOptions.read]
      split
      · exact fun _ => .rejected _ _
      · exact (hS.set hgh setting argument).bind fun _ _ hS' => ih hS' _
    | none =>
      simp only [GivenOptions.read]
      split
      · cases rest with
        | nil => exact hgh
        | cons a rest => exact fun _ => .rejected _ _
      · refine (hS.take hgh argument).bind fun a b hab => ?_
        obtain ⟨hS', hawaited⟩ := hab
        rw [hawaited]
        exact ih hS' _

end Simulation

/-! ## What the options may differ in -/

structure SameButFormat (g h : GivenOptions) : Prop where
  rules : g.rules = h.rules
  profile : g.profile = h.profile
  verbose : g.verbose = h.verbose
  given : g.format.isSome = h.format.isSome

structure SameButVerbose (g h : GivenOptions) : Prop where
  rules : g.rules = h.rules
  profile : g.profile = h.profile
  format : g.format = h.format

theorem SameButFormat.refl (g : GivenOptions) : SameButFormat g g := ⟨rfl, rfl, rfl, rfl⟩

/-- A setting is read in the light of the settings alone, and what else is given stays. -/
theorem set_alike {strict : Prop} {g h : GivenOptions} (hrules : g.rules = h.rules)
    (hprofile : g.profile = h.profile) (hgiven : g.format.isSome = h.format.isSome)
    (setting : Setting) (value : Text) :
    Alike strict (fun g' h' => (g'.rules = h'.rules ∧ g'.profile = h'.profile ∧
        g'.format.isSome = h'.format.isSome) ∧ (g'.verbose = g.verbose ∧ h'.verbose = h.verbose) ∧
          (g.format = h.format → g'.format = h'.format))
      (g.set setting value) (h.set setting value) := by
  cases setting with
  | rules =>
    rw [set, set, hrules]
    split
    · exact fun _ => .rejected _ _
    split
    · exact fun _ => .rejected _ _
    · exact ⟨⟨rfl, hprofile, hgiven⟩, ⟨rfl, rfl⟩, id⟩
  | profile =>
    rw [set, set, hprofile]
    split
    · exact fun _ => .rejected _ _
    · exact ⟨⟨hrules, rfl, hgiven⟩, ⟨rfl, rfl⟩, id⟩
  | format =>
    simp only [set, hgiven]
    cases Format.ofName? value with
    | none => exact fun _ => .rejected _ _
    | some f =>
      simp only
      split
      · exact fun _ => .rejected _ _
      · exact ⟨⟨hrules, hprofile, rfl⟩, ⟨rfl, rfl⟩, fun _ => rfl⟩

theorem simulation_sameButFormat : Simulation True SameButFormat where
  turnOn := by
    intro g h hgh asWord switch
    cases switch with
    | verbose =>
      rw [turnOn, turnOn, hgh.verbose]
      split
      · exact fun _ => .rejected _ _
      · exact ⟨hgh.rules, hgh.profile, rfl, hgh.given⟩
    | help => exact fun _ => .help asWord
    | version => exact fun _ => .version
  set := by
    intro g h hgh setting value
    refine (set_alike hgh.rules hgh.profile hgh.given setting value).mono ?_
    rintro g' h' ⟨⟨hrules, hprofile, hgiven⟩, ⟨hg, hh⟩, _⟩
    exact ⟨hrules, hprofile, hg.trans (hgh.verbose.trans hh.symm), hgiven⟩

theorem simulation_sameButVerbose : Simulation False SameButVerbose where
  turnOn := by
    intro g h hgh asWord switch
    cases switch with
    | verbose =>
      rw [turnOn, turnOn]
      split <;> split
      · exact False.elim
      · exact not_false
      · exact not_false
      · exact ⟨hgh.rules, hgh.profile, hgh.format⟩
    | help => exact False.elim
    | version => exact False.elim
  set := by
    intro g h hgh setting value
    have hgiven := congrArg Option.isSome hgh.format
    refine (set_alike hgh.rules hgh.profile hgiven setting value).mono ?_
    rintro g' h' ⟨⟨hrules, hprofile, _⟩, _, hformat⟩
    exact ⟨hrules, hprofile, hformat hgh.format⟩

theorem ne_run_of_read {g : GivenOptions} {awaited : Option Setting} {arguments : List Text}
    {i : Invocation} (h : g.read awaited arguments = .error i) (o : Options) : i ≠ .run o := by
  have halike := simulation_sameButFormat.read (SameButFormat.refl g) awaited arguments
  rw [h] at halike
  rintro rfl
  exact nomatch halike trivial

/-! ## Behind the same arguments -/

/-- Readings that go alike from everywhere go alike behind the same arguments.  Only `--`
looks at what follows it. -/
theorem read_append {strict : Prop} {S : GivenOptions → GivenOptions → Prop} {a b : List Text}
    (hdash : ∀ g : GivenOptions, Alike strict S (g.read .none ("--".toList :: a))
      (g.read .none ("--".toList :: b)))
    (hread : ∀ (g : GivenOptions) awaited, Alike strict S (g.read awaited a) (g.read awaited b))
    (g : GivenOptions) (awaited : Option Setting) (before : List Text) :
    Alike strict S (g.read awaited (before ++ a)) (g.read awaited (before ++ b)) := by
  -- The same argument gives both readings the same options to go on with.
  induction before generalizing g awaited with
  | nil => exact hread g awaited
  | cons argument before ih =>
    cases awaited with
    | some setting =>
      rw [List.cons_append, List.cons_append, GivenOptions.read, GivenOptions.read]
      split
      · exact fun _ => .rejected _ _
      · have hsame := simulation_sameButFormat.set (SameButFormat.refl g) setting argument
        cases hset : g.set setting argument with
        | error i =>
          rw [hset] at hsame
          exact fun _ => hsame trivial
        | ok g' => exact ih g' _
    | none =>
      by_cases hargument : argument = "--".toList
      · subst hargument
        cases before with
        | nil => exact hdash g
        | cons x before => exact fun _ => .rejected _ _
      · simp only [List.cons_append, GivenOptions.read, if_neg hargument]
        have hsame := simulation_sameButFormat.take (SameButFormat.refl g) argument
        cases htake : g.take argument with
        | error i =>
          rw [htake] at hsame
          exact fun _ => hsame trivial
        | ok r => exact ih r.1 r.2

/-! ## Another format -/

end GivenOptions

/-- The ways to give a format.  Letters of switches may stand in front of its letter. -/
inductive FormatSpelling
  | word
  | joinedWord
  | letter (switches : List Switch)
  | joinedLetter (switches : List Switch)
  | signedLetter (switches : List Switch)
  deriving DecidableEq, Repr

def Switch.letter : Switch → Char
  | .verbose => 'v'
  | .help => 'h'
  | .version => 'V'

def FormatSpelling.arguments (value : Text) : FormatSpelling → List Text
  | .word => ["--format".toList, value]
  | .joinedWord => ["--format=".toList ++ value]
  | .letter switches => ['-' :: (switches.map Switch.letter ++ ['f']), value]
  | .joinedLetter switches => ['-' :: (switches.map Switch.letter ++ 'f' :: value)]
  | .signedLetter switches => ['-' :: (switches.map Switch.letter ++ 'f' :: '=' :: value)]

namespace GivenOptions

theorem turnOn_alike (g : GivenOptions) (asWord : Bool) (switch : Switch) :
    Alike True Eq (g.turnOn asWord switch) (g.turnOn asWord switch) := by
  cases switch with
  | verbose =>
    rw [turnOn]
    split
    · exact fun _ => .rejected _ _
    · exact rfl
  | help => exact fun _ => .help asWord
  | version => exact fun _ => .version

theorem takeLetters_alike {R : GivenOptions × Option Setting → GivenOptions × Option Setting → Prop}
    {a a' : Text} (h : ∀ g : GivenOptions, Alike True R (g.takeLetters a) (g.takeLetters a'))
    (g : GivenOptions) (switches : List Switch) :
    Alike True R (g.takeLetters (switches.map Switch.letter ++ a))
      (g.takeLetters (switches.map Switch.letter ++ a')) := by
  induction switches generalizing g with
  | nil => exact h g
  | cons switch switches ih =>
    have hstep : ∀ s, g.takeLetters (switch.letter :: s) =
        g.turnOn false switch >>= fun g => g.takeLetters s := by
      intro s
      cases switch <;> rfl
    rw [List.map_cons, List.cons_append, List.cons_append, hstep, hstep]
    refine (turnOn_alike g false switch).bind fun g' _ hg' => ?_
    subst hg'
    exact ih g'

theorem set_name (g : GivenOptions) (f f' : Format) :
    Alike True SameButFormat (g.set .format f.name) (g.set .format f'.name) := by
  simp only [set, Format.ofName?_name]
  split
  · exact fun _ => .rejected _ _
  · exact ⟨rfl, rfl, rfl, rfl⟩

/-- An argument that is an option is read as one, and is no value. -/
theorem read_option {R : GivenOptions × Option Setting → GivenOptions × Option Setting → Prop}
    {S : GivenOptions → GivenOptions → Prop} {strict : Prop} {g : GivenOptions} {a a' : Text}
    {rest rest' : List Text} (ha : looksLikeOption a = true ∧ a ≠ "--".toList)
    (ha' : looksLikeOption a' = true ∧ a' ≠ "--".toList)
    (htake : Alike strict R (g.take a) (g.take a'))
    (hrest : ∀ r r', R r r' → Alike strict S (r.1.read r.2 rest) (r'.1.read r'.2 rest'))
    (awaited : Option Setting) :
    Alike strict S (g.read awaited (a :: rest)) (g.read awaited (a' :: rest')) := by
  cases awaited with
  | some setting =>
    rw [read, read, if_pos ha.1, if_pos ha'.1]
    exact fun _ => .rejected _ _
  | none =>
    simp only [read, if_neg ha.2, if_neg ha'.2]
    exact htake.bind hrest

theorem read_value (g : GivenOptions) (f f' : Format) (behind : List Text) :
    Alike True SameButFormat (g.read (some .format) (f.name :: behind))
      (g.read (some .format) (f'.name :: behind)) := by
  have hvalue : ∀ f : Format, looksLikeOption f.name = false := by
    intro f
    cases f <;> decide
  rw [read, read, hvalue f, hvalue f']
  exact (set_name g f f').bind fun _ _ hS => simulation_sameButFormat.read hS _ _

theorem take_letters (g : GivenOptions) (switches : List Switch) (behind : Text) :
    (looksLikeOption ('-' :: (switches.map Switch.letter ++ 'f' :: behind)) = true ∧
        '-' :: (switches.map Switch.letter ++ 'f' :: behind) ≠ "--".toList) ∧
      g.take ('-' :: (switches.map Switch.letter ++ 'f' :: behind)) =
        g.takeLetters (switches.map Switch.letter ++ 'f' :: behind) := by
  have hcons : ∃ c s, switches.map Switch.letter ++ 'f' :: behind = c :: s ∧ c ≠ '-' := by
    cases switches with
    | nil => exact ⟨'f', behind, rfl, by decide⟩
    | cons switch switches => cases switch <;> exact ⟨_, _, rfl, by decide⟩
  obtain ⟨c, s, hletters, hc⟩ := hcons
  rw [hletters]
  refine ⟨⟨rfl, fun h => ?_⟩, ?_⟩
  · exact hc (List.cons.inj (List.cons.inj h).2).1
  · rw [take]
    exact hc

theorem takeLetters_name (g : GivenOptions) (f : Format) :
    g.takeLetters ('f' :: f.name) = (g.set .format f.name).map fun g => (g, .none) := by
  cases f <;> rfl

/-- Reading on behind the option for the format, with its value or without it. -/
theorem read_spelling (g : GivenOptions) (awaited : Option Setting) (spelling : FormatSpelling)
    (f f' : Format) (behind : List Text) :
    Alike True SameButFormat (g.read awaited (spelling.arguments f.name ++ behind))
      (g.read awaited (spelling.arguments f'.name ++ behind)) := by
  -- With the value in the same argument the option leaves nothing awaited.
  have hjoined : ∀ r r', Awaiting SameButFormat r r' →
      Alike True SameButFormat (r.1.read r.2 behind) (r'.1.read r'.2 behind) := by
    rintro r ⟨g', awaited⟩ ⟨hS, rfl⟩
    exact simulation_sameButFormat.read hS _ _
  -- Without it, the option leaves the setting awaited, and the value follows.
  have hapart : ∀ r r' : GivenOptions × Option Setting, (r = r' ∧ r.2 = some .format) →
      Alike True SameButFormat (r.1.read r.2 (f.name :: behind))
        (r'.1.read r'.2 (f'.name :: behind)) := by
    rintro ⟨g', _⟩ _ ⟨rfl, rfl⟩
    exact read_value g' f f' behind
  cases spelling with
  | word =>
    refine read_option ⟨rfl, by decide⟩ ⟨rfl, by decide⟩ ?_ hapart awaited
    have htake : g.take "--format".toList = .ok (g, some .format) := rfl
    rw [htake]
    exact ⟨rfl, rfl⟩
  | joinedWord =>
    have hoption : ∀ f : Format, looksLikeOption ("--format=".toList ++ f.name) = true ∧
        "--format=".toList ++ f.name ≠ "--".toList := by
      intro f
      cases f <;> decide
    have htake : ∀ f : Format, g.take ("--format=".toList ++ f.name) =
        (g.set .format f.name).map fun g => (g, .none) := by
      intro f
      cases f <;> rfl
    refine read_option (hoption f) (hoption f') ?_ hjoined awaited
    rw [htake, htake]
    exact (set_name g f f').map fun _ _ hS => ⟨hS, rfl⟩
  | letter switches =>
    refine read_option (take_letters g switches []).1 (take_letters g switches []).1 ?_ hapart awaited
    rw [(take_letters g switches []).2]
    refine takeLetters_alike (fun g => ?_) g switches
    have htake : g.takeLetters ['f'] = .ok (g, some .format) := rfl
    rw [htake]
    exact ⟨rfl, rfl⟩
  | joinedLetter switches =>
    refine read_option (take_letters g switches f.name).1 (take_letters g switches f'.name).1 ?_
      hjoined awaited
    rw [(take_letters g switches f.name).2, (take_letters g switches f'.name).2]
    refine takeLetters_alike (fun g => ?_) g switches
    rw [takeLetters_name, takeLetters_name]
    exact (set_name g f f').map fun _ _ hS => ⟨hS, rfl⟩
  | signedLetter switches =>
    refine read_option (take_letters g switches _).1 (take_letters g switches _).1 ?_
      hjoined awaited
    rw [(take_letters g switches _).2, (take_letters g switches _).2]
    refine takeLetters_alike (fun g => ?_) g switches
    exact (set_name g f f').map fun _ _ hS => ⟨hS, rfl⟩

/-- Another format is read alike, wherever it is given and however it is spelled. -/
theorem read_format (before : List Text) (spelling : FormatSpelling) (f f' : Format)
    (behind : List Text) :
    Alike True SameButFormat
      (none.read .none (before ++ (spelling.arguments f.name ++ behind)))
      (none.read .none (before ++ (spelling.arguments f'.name ++ behind))) := by
  refine read_append (fun g => ?_) (fun g awaited => read_spelling g awaited spelling f f' behind)
    none .none before
  cases spelling <;> exact fun _ => .rejected _ _

/-! ## A verbose run -/

theorem alike_error {S : GivenOptions → GivenOptions → Prop} (x : Except Invocation GivenOptions)
    (i : Invocation) : Alike False S x (.error i) := by
  cases x with
  | error j => exact False.elim
  | ok g => exact not_false

theorem read_verbose (g : GivenOptions) (awaited : Option Setting) {argument : Text}
    (hargument : argument ∈ ["-v".toList, "--verbose".toList]) (behind : List Text) :
    Alike False SameButVerbose (g.read awaited behind) (g.read awaited (argument :: behind)) := by
  have hoption : looksLikeOption argument = true ∧ argument ≠ "--".toList := by
    revert argument
    decide
  have htake : ∃ asWord, g.take argument =
      (g.turnOn asWord .verbose).map fun g => (g, Option.none) := by
    simp only [List.mem_cons, List.not_mem_nil, or_false] at hargument
    rcases hargument with rfl | rfl
    · refine ⟨false, ?_⟩
      show (g.turnOn false .verbose >>= fun g => g.takeLetters []) = _
      cases g.turnOn false .verbose <;> rfl
    · exact ⟨true, rfl⟩
  obtain ⟨asWord, htake⟩ := htake
  cases awaited with
  | some setting =>
    have hread : g.read (some setting) (argument :: behind) =
        .error (.rejected (.missingValue setting)) := by
      rw [read, if_pos hoption.1]
    rw [hread]
    exact alike_error _ _
  | none =>
    simp only [read, if_neg hoption.2, htake, turnOn]
    split
    · exact alike_error _ _
    · have hS : SameButVerbose g { g with verbose := true } := ⟨rfl, rfl, rfl⟩
      exact simulation_sameButVerbose.read hS .none behind

/-- One more switch for a verbose run leaves the other options as they are, unless it is
refused. -/
theorem read_insert_verbose (before : List Text) {argument : Text}
    (hargument : argument ∈ ["-v".toList, "--verbose".toList]) (behind : List Text) :
    Alike False SameButVerbose (none.read .none (before ++ behind))
      (none.read .none (before ++ argument :: behind)) :=
  read_append (fun _ => alike_error _ _)
    (fun g awaited => read_verbose g awaited hargument behind) none .none before

end GivenOptions
end ModuleBoundary
