/-!
# Framework types

The types known without a declaration in sight: those that keywords name, and those of the
framework that payloads are commonly made of.
-/

namespace TaskWrappers

/-- A type that a keyword names. -/
structure KeywordType where
  keyword : String
  fullName : String
  isReference : Bool
  deriving DecidableEq

structure FrameworkType where
  space : String
  name : String
  arity : Nat
  isReference : Bool
  deriving DecidableEq

def FrameworkType.fullName (t : FrameworkType) : String := t.space ++ "." ++ t.name

namespace Catalog

def keywordTypes : List KeywordType := [
  ⟨"bool", "System.Boolean", false⟩,
  ⟨"byte", "System.Byte", false⟩,
  ⟨"sbyte", "System.SByte", false⟩,
  ⟨"char", "System.Char", false⟩,
  ⟨"decimal", "System.Decimal", false⟩,
  ⟨"double", "System.Double", false⟩,
  ⟨"float", "System.Single", false⟩,
  ⟨"int", "System.Int32", false⟩,
  ⟨"uint", "System.UInt32", false⟩,
  ⟨"nint", "System.IntPtr", false⟩,
  ⟨"nuint", "System.UIntPtr", false⟩,
  ⟨"long", "System.Int64", false⟩,
  ⟨"ulong", "System.UInt64", false⟩,
  ⟨"short", "System.Int16", false⟩,
  ⟨"ushort", "System.UInt16", false⟩,
  ⟨"object", "System.Object", true⟩,
  ⟨"string", "System.String", true⟩]

def ofKeyword? (keyword : String) : Option KeywordType :=
  keywordTypes.find? (·.keyword == keyword)

def ofFullName? (fullName : String) : Option KeywordType :=
  keywordTypes.find? (·.fullName == fullName)

/-- A namespace's values and references, each with its name and number of type parameters. -/
def space (name : String) (values references : List (String × Nat)) : List FrameworkType :=
  let types (isReference : Bool) (named : List (String × Nat)) : List FrameworkType :=
    named.map fun (n, k) => ⟨name, n, k, isReference⟩
  types false values ++ types true references

def frameworkTypes : List FrameworkType :=
  space "System"
      [("Boolean", 0), ("Byte", 0), ("SByte", 0), ("Char", 0), ("Decimal", 0),
        ("Double", 0), ("Single", 0), ("Int16", 0), ("UInt16", 0), ("Int32", 0),
        ("UInt32", 0), ("Int64", 0), ("UInt64", 0), ("IntPtr", 0), ("UIntPtr", 0),
        ("DateTime", 0), ("DateTimeOffset", 0), ("DateOnly", 0), ("TimeOnly", 0),
        ("TimeSpan", 0), ("Guid", 0), ("Half", 0), ("Int128", 0), ("UInt128", 0),
        ("Nullable", 1), ("ValueTuple", 1), ("ValueTuple", 2), ("ValueTuple", 3),
        ("ValueTuple", 4), ("Memory", 1), ("ReadOnlyMemory", 1)]
      [("Object", 0), ("String", 0), ("Uri", 0), ("Version", 0), ("Exception", 0),
        ("Lazy", 1), ("Tuple", 1), ("Tuple", 2), ("Tuple", 3), ("Tuple", 4)]
    ++ space "System.Collections.Generic"
      [("KeyValuePair", 2)]
      [("IEnumerable", 1), ("IAsyncEnumerable", 1), ("ICollection", 1),
        ("IReadOnlyCollection", 1), ("IList", 1), ("IReadOnlyList", 1), ("ISet", 1),
        ("IReadOnlySet", 1), ("IDictionary", 2), ("IReadOnlyDictionary", 2), ("List", 1),
        ("LinkedList", 1), ("HashSet", 1), ("SortedSet", 1), ("Queue", 1), ("Stack", 1),
        ("Dictionary", 2), ("SortedDictionary", 2)]
    ++ space "System.Collections.Immutable"
      [("ImmutableArray", 1)]
      [("ImmutableList", 1), ("ImmutableHashSet", 1), ("ImmutableDictionary", 2),
        ("IImmutableList", 1), ("IImmutableDictionary", 2)]
    ++ space "System.Threading"
      [("CancellationToken", 0)]
      []
    ++ space "System.Threading.Tasks"
      [("ValueTask", 0), ("ValueTask", 1)]
      [("Task", 0), ("Task", 1)]
    ++ space "System.Text.Json"
      [("JsonElement", 0)]
      [("JsonDocument", 0)]
    ++ space "System.Text.Json.Nodes"
      []
      [("JsonNode", 0), ("JsonObject", 0), ("JsonArray", 0), ("JsonValue", 0)]
    ++ space "System.IO"
      []
      [("Stream", 0), ("FileInfo", 0)]

end Catalog

end TaskWrappers
