/-
The tokens of a YAML stream.

Indentation has become tokens: a block collection starts with one token and ends
with another, like a collection between brackets.
-/
import ModuleBoundary.Text.Utf8

namespace ModuleBoundary
namespace Yaml

inductive Token
  | versionDirective (major minor : Nat)
  | tagDirective (handle : Text) (lead : Bytes)
  | documentStart
  | documentEnd
  | blockSequenceStart
  | blockMappingStart
  | blockEnd
  | flowSequenceStart
  | flowSequenceEnd
  | flowMappingStart
  | flowMappingEnd
  | blockEntry
  | flowEntry
  | key
  | value
  | alias (name : Text)
  | anchor (name : Text)
  | tag (handle : Text) (suffix : Bytes)
  /-- Only a plain scalar can be anything but a text. -/
  | scalar (text : Text) (plain : Bool)
  deriving DecidableEq, Repr

end Yaml
end ModuleBoundary
