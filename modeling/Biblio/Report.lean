import Biblio.Request.Record

/-!
# Reports

A report shows a record in four sections: the title field, some queries with
locators, queries with filters, and a mapping. Every line of it answers a query
that is written here.
-/

namespace Biblio

namespace Report

def rule : String := String.ofList (List.replicate 70 '=')

def heading : List String :=
  ["", rule, "pica: Reading and Querying PICA+ Records", rule, ""]

def opening (title : String) : List String :=
  ["=== " ++ title ++ " ===", ""]

def written (v : Datum) : Action String :=
  return (← get).written v

def first (r : RecordRef) (locator : String) : Action Datum :=
  r.first (.text locator) .null .null

/-! ## Sections -/

def titleLines (f : Field) : List String :=
  ["Tag:        " ++ f.tag,
   "Occurrence: " ++ Text.quote f.occurrence,
   "Full tag:   " ++ f.fullTag,
   "Title:      " ++ (f.byCode? "a").getD "None",
   "Codes:      " ++ Shown.list (f.codes.map Text.quote)]

def fieldAccess (r : RecordRef) : Action (List String) := do
  let found ←
    match ← first r "021A" with
    | .field f => do
      let x ← Action.field f
      pure (if x.ok then titleLines x else [])
    | _ => pure []
  let identifier ← written (← first r "003@$0")
  let tags := (← Action.record r).tags
  return opening "Field Access" ++ found ++
    ["", "PPN: " ++ identifier, "Tags: " ++ ", ".intercalate tags, ""]

def fieldsIn (v : Datum) : Action (List FieldRef) := do
  match v with
  | .record x => return (← Action.record x).fields
  | _ => return []

def personLine (f : FieldRef) : Action String := do
  let x ← Action.field f
  return "  " ++ x.fullTag ++ ": " ++ (← written (← f.join (.text " ") (.text "da")))

def exactLine (r : RecordRef) (label locator : String) : Action String := do
  let (value, error) ← r.query (.text locator) .null .null
  let shown := (← get).shown value
  return label ++ ": " ++ shown ++ " (error: " ++ (error.map QueryError.message).getD "None" ++ ")"

def locatorQueries (r : RecordRef) : Action (List String) := do
  let persons ← fieldsIn (← r.all (.text "028A|028C") .null .null)
  let persons ← persons.mapM personLine
  let subjects ← written (← r.all (.text "041A/$8") .null .null)
  let title ← exactLine r "Exactly one title" "!021A$a"
  let other ← exactLine r "Exactly one 028C" "!028C$a"
  return opening "Locator Queries" ++ persons ++
    ["", "Subjects without occurrence: " ++ subjects, "", title, other, ""]

def classification : Arg :=
  .table [(.text "find", .text "^DDC([\\d.]+)$"), (.text "format", .text "ddc:\x7b\x7d")]

def described : Callback
  | .field f => do return .bool (← f.first (.text "3") .null).isSome
  | _ => return .bool false

def filteredQueries (r : RecordRef) : Action (List String) := do
  let classes ← written (← r.all (.text "045E$a|045F$a") .null classification)
  let linked ← fieldsIn (← r.all (.text "009P") .null (.callback described))
  let links ← linked.mapM fun f => f.first (.text "a") .null
  return opening "Filters" ++
    ["Classification: " ++ classes,
     "Links with description: " ++ Shown.list (links.map Shown.text?), ""]

def identifier : Callback
  | .record r => do
    match ← first r "003@$0" with
    | .text t => return .text ("ppn:" ++ t)
    | v => throw (.operation (.notJoinable v.typeName))
  | v => throw (.operation (.noMember v.typeName "first"))

def table : Arg :=
  .table
    [(.text "title", .tuple [.text "!", .text "021A", .text "a"]),
     (.text "subject", .tuple [.text "*041A", .text "8"]),
     (.text "language", .tuple [.text "010@", .text "a"]),
     (.text "identifier", .callback identifier)]

def mapping (r : RecordRef) : Action (List String) := do
  let found ← r.map table
  let values ← found.values.mapM fun (k, v) =>
    return "  " ++ (← written k) ++ ": " ++ (← written v)
  let errors ← found.errors.mapM fun (k, v) =>
    return "  " ++ (← written k) ++ ": ERROR " ++ (← written v)
  return opening "Mapping" ++ values ++ errors ++ [""]

def lines (r : RecordRef) : Action (List String) := do
  let access ← fieldAccess r
  let queries ← locatorQueries r
  let filtered ← filteredQueries r
  let mapped ← mapping r
  return heading ++ access ++ queries ++ filtered ++ mapped

def ofText (text : String) : Action String := do
  let r ← Action.parseRecord text
  return String.join ((← lines r).map (· ++ "\n"))

end Report

end Biblio
