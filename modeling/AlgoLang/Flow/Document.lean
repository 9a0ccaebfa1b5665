/-
# Flowcharts as a JSON document

Coordinates that are not finite are written by their names.  The charts of routines are the fields of an
object, in the order of the program.
-/
import AlgoLang.Flow.Program
import AlgoLang.Json

namespace AlgoLang.Flow

def placeToJson (l : Location) : Json :=
  .object [("line", .integer l.line), ("column", .integer l.column)]

def spanToJson (s : Span) : Json :=
  .object [("start", placeToJson s.start), ("end", placeToJson s.stop)]

def Position.toJson : Position → Json
  | .infinite negative => .number (if negative then "-Infinity" else "Infinity")
  | .undefined => .number "NaN"
  | p => .number p.text

def Node.toJson (n : Node) : Json :=
  .object [("id", .string (nodeName n.id)), ("kind", .string n.kind.name), ("label", .string n.label),
    ("x", n.x.toJson), ("y", n.y.toJson), ("width", .integer n.width),
    ("height", .integer n.height), ("links", .array (n.links.map .string)), ("span", .ofOption spanToJson n.span)]

def Edge.toJson (e : Edge) : Json :=
  .object [("id", .string (edgeName e.id)), ("source", .string (nodeName e.source)),
    ("target", .string (nodeName e.target)), ("label", .ofOption .string e.label), ("kind", .string e.kind.name)]

def Chart.toJson (c : Chart) : Json :=
  .object [("name", .string c.name), ("routine", .string c.role.name), ("width", c.width.toJson), ("height", c.height.toJson),
    ("nodes", .array (c.nodes.map Node.toJson)),
    ("edges", .array (c.edges.map Edge.toJson))]

def Charted.toJson (c : Charted) : Json :=
  .object [("success", .bool c.charts.isSome), ("error", .ofOption .string c.error),
    ("main", .ofOption (fun s => s.main.toJson) c.charts),
    ("subroutines", .object (c.charts.elim [] fun s => s.routines.map fun r => (r.1, r.2.toJson))),
    ("source_map", .ofOption (fun map => .array (map.map .integer)) c.sourceMap)]

end AlgoLang.Flow
