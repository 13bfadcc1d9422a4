/-
Paths as they are spelled, and the components they stand for.

A path is a list of bytes.  A name in a directory need not be a text, and of one that
is none `Path.text` shows what can be shown; two different paths can look alike then.

A path keeps its spelling, because reports show it, and is compared by its
components, because `a//b`, `a/./b` and `a/b` name one place.  `Path.rest?` is
the one operation that looks at both: it cuts components off the front and gives
what is left as it was spelled.
-/
import ModuleBoundary.Text.Utf8

namespace ModuleBoundary

structure Path where
  bytes : Bytes
  deriving DecidableEq, Repr, Inhabited

/-- One component.  A leading `.` is a component; every other `.`, and every empty
segment, is not.  A `..` is never resolved here. -/
inductive Component
  | root
  | here
  | up
  | name (bytes : Bytes)
  deriving DecidableEq, Repr

abbrev slash : UInt8 := 0x2F

abbrev dot : UInt8 := 0x2E

namespace Component

def ofSegment (segment : Bytes) : Component := if segment = [dot, dot] then .up else .name segment

/-- A component as a list of numbers, so that the order of lists is the order of
components: the root first, then a leading `.`, then `..`, then the names by their
bytes. -/
def key : Component → List Nat
  | .root => [0]
  | .here => [1]
  | .up => [2]
  | .name n => 3 :: n.map UInt8.toNat

theorem key_injective (a b : Component) (h : a.key = b.key) : a = b := by
  cases a <;> cases b <;> simp_all [key]
  next m n => exact (List.map_inj_right fun _ _ => UInt8.toNat_inj.mp).mp h

end Component

namespace Path

def ofText (s : Text) : Path := ⟨Utf8.encode s⟩

instance : Coe String Path := ⟨fun s => ofText s.toList⟩

def text (p : Path) : Text := Utf8.decodeLossy p.bytes

def text? (p : Path) : Option Text := Utf8.decode? p.bytes

/-! ## Components -/

def segments (p : Path) : List Bytes := p.bytes.splitOn slash

/-- A segment that is no component, unless it leads a path. -/
def isSilent (segment : Bytes) : Bool := segment == [] || segment == [dot]

def isAbsolute (p : Path) : Bool := p.bytes.head? == some slash

/-- The component that only the first segment can be. -/
def lead (p : Path) : Option Component :=
  if p.isAbsolute then some .root
  else if p.segments.head? = some [dot] then some .here
  else none

def body (p : Path) : List Bytes := if p.lead.isSome then p.segments.tail else p.segments

def components (p : Path) : List Component :=
  p.lead.toList ++ (p.body.filter fun s => !isSilent s).map Component.ofSegment

/-! ## The last component -/

def fileName? (p : Path) : Option Bytes :=
  match p.components.getLast? with
  | some (.name n) => some n
  | _ => none

/-- What follows the last dot of the file name.  A dot that leads the name starts
no extension; a dot that ends it starts an empty one. -/
def extension? (p : Path) : Option Bytes :=
  p.fileName?.bind fun n =>
    match Text.cutLast? dot n with
    | some (_ :: _, ext) => some ext
    | _ => none

/-- The extension is a text, and one of `exts` up to the case of ASCII letters. -/
def hasExtension (p : Path) (exts : List Text) : Bool :=
  match p.extension?.bind Utf8.decode? with
  | some ext => exts.contains (Text.lower ext)
  | none => false

/-! ## Putting paths together -/

def ofNames (segments : List Bytes) : Path := ⟨Text.join [slash] segments⟩

/-- `q` seen from `p`.  An absolute path stands for itself. -/
def join (p q : Path) : Path :=
  if q.isAbsolute || p.bytes.isEmpty then q
  else if p.bytes.getLast? = some slash then ⟨p.bytes ++ q.bytes⟩
  else ⟨p.bytes ++ slash :: q.bytes⟩

def startsWith (p q : Path) : Bool := q.components.isPrefixOf p.components

theorem startsWith_iff {p q : Path} : p.startsWith q = true ↔ q.components <+: p.components :=
  List.isPrefixOf_iff_prefix

/-- The segments behind the first `n` that are components. -/
def dropNames : Nat → List Bytes → List Bytes
  | 0, segments => segments
  | _, [] => []
  | n + 1, s :: segments =>
    if isSilent s then dropNames (n + 1) segments else dropNames n segments

def trimSilentEnd (segments : List Bytes) : List Bytes :=
  (segments.reverse.dropWhile isSilent).reverse

/-- What is left of the spelling of `p` behind the components of `q`, without
silent segments at the cut and at the end.  The lead stays if nothing is cut. -/
def rest? (p q : Path) : Option Path :=
  if p.startsWith q then
    match q.components.length, p.lead with
    | 0, some .root => some ⟨slash :: (ofNames (trimSilentEnd p.body)).bytes⟩
    | 0, some _ => some (ofNames ([dot] :: trimSilentEnd p.body))
    | 0, none => some (ofNames (trimSilentEnd p.body))
    | n + 1, lead =>
      let left := dropNames (if lead.isSome then n else n + 1) p.body
      some (ofNames (trimSilentEnd (left.dropWhile isSilent)))
  else none

/-- `p` seen from `q` if it lies there, else `p`. -/
def relativeTo (p q : Path) : Path := (p.rest? q).getD p

theorem rest?_isSome {p q : Path} : (p.rest? q).isSome = p.startsWith q := by
  unfold rest?
  split
  · next h => split <;> simp [h]
  · next h => simp [h]

/-! ## Order -/

/-- Paths are ordered by their components, one after the other. -/
def key (p : Path) : List (List Nat) := p.components.map Component.key

theorem key_eq_iff {p q : Path} : p.key = q.key ↔ p.components = q.components :=
  List.map_inj_right Component.key_injective

end Path
end ModuleBoundary
