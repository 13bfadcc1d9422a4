/-
The lines that break a routing rule.

A route definition is a call of a routing verb on the router, and a discovery is a
call that lists files, or the name of a class that does.  Both are found in the text
of a line; comments and strings are not understood.
-/
import ModuleBoundary.Text.Form

namespace ModuleBoundary
namespace RouteLine

def verbs : List Text :=
  ["get".toList, "post".toList, "put".toList, "patch".toList, "delete".toList, "options".toList,
    "any".toList, "match".toList, "resource".toList, "apiResource".toList, "resources".toList,
    "apiResources".toList, "view".toList, "redirect".toList]

/-- A route is defined here; `Route::` needs a word start. -/
def isDefinitionAt (wordStart : Bool) (s : Text) : Bool :=
  (wordStart && (Text.after? "Route::".toList s).any (Text.isCallOf verbs)) ||
    (Text.after? "$router->".toList s).any (Text.isCallOf verbs)

def isDefinition (line : Text) : Bool := Text.somewhere isDefinitionAt false line

def discoveryNames : List Text :=
  ["RecursiveDirectoryIterator".toList, "RecursiveIteratorIterator".toList,
    "Symfony\\Component\\Finder".toList]

def discoveryCalls : List Text :=
  ["glob".toList, "scandir".toList, "Finder::create".toList, "File::allFiles".toList,
    "File::files".toList, "File::glob".toList]

def isDiscovery (line : Text) : Bool :=
  discoveryNames.any (fun name => Text.hasPart name line) ||
    Text.somewhere (fun wordStart s => wordStart && Text.isCallOf discoveryCalls s) false line

end RouteLine
end ModuleBoundary
