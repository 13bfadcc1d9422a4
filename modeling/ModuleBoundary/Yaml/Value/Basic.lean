/-
YAML values.

A mapping keeps its entries in the order of the document, and has no key twice.
Keys are compared by what they mean: a whole number is never a float, all NaNs are
one, and two mappings are the same in any order.
-/
import ModuleBoundary.Decimal.Binary64

namespace ModuleBoundary
namespace Yaml

inductive Value
  | null
  | bool (b : Bool)
  | int (n : Int)
  | float (x : Binary64)
  | string (s : Text)
  | sequence (items : List Value)
  | mapping (entries : List (Value × Value))
  /-- A value with a tag of its own, which is the text behind an exclamation mark. -/
  | tagged (tag : Text) (value : Value)
  deriving Repr, Inhabited

namespace Value

mutual

def same : Value → Value → Bool
  | .null, .null => true
  | .bool a, .bool b => a == b
  | .int a, .int b => a == b
  | .float a, .float b => a.same b
  | .string a, .string b => a == b
  | .sequence as, .sequence bs => sameItems as bs
  | .mapping as, .mapping bs => as.length == bs.length && sameEntries as bs
  | .tagged t a, .tagged u b => t == u && same a b
  | _, _ => false

def sameItems : List Value → List Value → Bool
  | [], [] => true
  | a :: as, b :: bs => same a b && sameItems as bs
  | _, _ => false

def sameEntries : List (Value × Value) → List (Value × Value) → Bool
  | [], _ => true
  | (k, v) :: rest, bs => bs.any (fun b => same k b.1 && same v b.2) && sameEntries rest bs

end

mutual

def all (test : Value → Bool) : Value → Bool
  | .sequence items => test (.sequence items) && allItems test items
  | .mapping entries => test (.mapping entries) && allEntries test entries
  | .tagged tag v => test (.tagged tag v) && all test v
  | v => test v

def allItems (test : Value → Bool) : List Value → Bool
  | [] => true
  | v :: rest => all test v && allItems test rest

def allEntries (test : Value → Bool) : List (Value × Value) → Bool
  | [] => true
  | (k, v) :: rest => all test k && all test v && allEntries test rest

end

/-- The value is no mapping, or no two of its keys are the same. -/
def hasDistinctKeys : Value → Bool
  | .mapping entries => entries.Pairwise fun d e => same d.1 e.1 = false
  | _ => true

def isProper (v : Value) : Bool := v.all hasDistinctKeys

def untag : Value → Value
  | .tagged _ v => untag v
  | v => v

def asText? (v : Value) : Option Text :=
  match v.untag with
  | .string s => some s
  | _ => none

def asMapping? (v : Value) : Option (List (Value × Value)) :=
  match v.untag with
  | .mapping entries => some entries
  | _ => none

/-- The value under a key of a mapping.  The key is a text without a tag. -/
def get? (v : Value) (key : Text) : Option Value := do
  ((← v.asMapping?).find? fun e => same e.1 (.string key)).map Prod.snd

theorem same_string {v : Value} {s : Text} : same v (.string s) = true ↔ v = .string s := by
  cases v <;> simp [same]

end Value
end Yaml
end ModuleBoundary
