import FileQuery.Json.Document

/-! Configurations as trees: sections within sections, entries in order. -/
set_option autoImplicit false
namespace FileQuery.Config

open Json (Value setEntry)

abbrev Section := List (String × Value)

def typeName : Value → String
  | .null => "NoneType"
  | .bool _ => "bool"
  | .int _ => "int"
  | .real _ => "float"
  | .string _ => "str"
  | .array _ => "list"
  | .object _ => "dict"

mutual

/-- What an entry becomes when one of the same name is laid over it: two sections are merged, all
else is replaced. -/
def overlay : Value → Option Value → Value
  | .object es, some (.object bs) => .object (merge bs es)
  | v, _ => v

def merge (base : Section) : Section → Section
  | [] => base
  | (k, v) :: es => merge (setEntry k (overlay v (base.lookup k)) base) es

end

def defaults : Section :=
  [("general", .object
      [("start_directory", .string ""), ("max_load_depth", .int 8)]),
   ("query", .object
      [("content_size_limit", .int (10 * 1024 * 1024)), ("content_encoding", .string "utf-8")]),
   ("output", .object
      [("text_report_title", .string "Search report:"), ("csv_delimiter", .string ",")]),
   ("logging", .object
      [("level", .string "INFO"), ("format", .string "[%(levelname)s] %(message)s")])]

end FileQuery.Config
