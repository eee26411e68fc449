import GroupCalendar.GraphQl.Error
import GroupCalendar.Json.Decode
import GroupCalendar.Text.Blank

/-! # GraphQL requests

A query with its variables. As a JSON value it is an object of the two; where one of them is
missing, it is empty.
-/

namespace GroupCalendar.GraphQl

structure Request where
  query : String := ""
  arguments : Json := .null

namespace Request

/-- Nothing but blank characters stands in the query. -/
def isBlank (r : Request) : Bool :=
  Text.blank r.query

def toJson (r : Request) : Json :=
  .object [("query", .string r.query), ("variables", r.arguments)]

def fields : List (Json.Field Request) :=
  [.defaulted "query" fun x r => return { r with query := ← Json.decodeString x },
    .defaulted "variables" fun x r => return { r with arguments := x }]

def ofJson (x : Json) : Json.Decoded Request :=
  Json.decodeRecord "GraphQlRequest" fields {} x

end Request

end GroupCalendar.GraphQl
