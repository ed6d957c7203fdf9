import FileQuery.Number.Double
import FileQuery.Record
import FileQuery.Table.Rich

/-! The tables that show records: the results of a query and the listing of a folder. -/
set_option autoImplicit false
namespace FileQuery.Table

inductive RenderError where
  | sizeTooLarge
  | markup (message : String)
  deriving DecidableEq, Repr

namespace RenderError

def message : RenderError → String
  | sizeTooLarge => "integer division result too large for a float"
  | markup message => message

def exceptionName : RenderError → String
  | sizeTooLarge => "OverflowError"
  | markup _ => "MarkupError"

end RenderError

/-- A size in units of 1024 with two decimals: the quotient is rounded to a double and then to
hundredths, a tie going to the even one. -/
def kibibytes (size : Int) : Except RenderError String :=
  let d := Number.toDouble size.natAbs 1024
  if d.overflows then .error .sizeTooLarge
  else
    let (n, m) := d.scaled 100
    let hundredths := Number.roundDiv n m
    .ok ((if size < 0 then "-" else "") ++ toString (hundredths / 100) ++ "." ++
      Text.padded 2 (hundredths % 100))

def resultColumns : List Column :=
  [⟨"Name", .left⟩, ⟨"Size", .right⟩, ⟨"Extension", .left⟩, ⟨"Modified", .left⟩]

def resultRow (r : Record) : Except RenderError (List String) := do
  return [r.name, (← kibibytes r.size) ++ " KB",
    if r.extension.isEmpty then "(none)" else r.extension, r.modified.isoDate]

def results (rich : Rich) (records : List Record) : Except RenderError String := do
  if records.isEmpty then return "No results.\n"
  let rows ← records.mapM resultRow
  let table ← (rich.print rounded resultColumns rows).mapError .markup
  return table ++ s!"Found {records.length} entries.\n"

def listingColumns : List Column :=
  [⟨"Mode", .left⟩, ⟨"Type", .left⟩, ⟨"Size", .right⟩, ⟨"Modified", .left⟩, ⟨"Name", .left⟩]

def listingRow (r : Record) : List String :=
  [formatPermissions r.permissions, r.kind.title,
   if r.isFolder then "" else toString r.size ++ "B", r.modified.isoSeconds, r.name]

def listing (rich : Rich) (records : List Record) : Except RenderError String :=
  (rich.print plain listingColumns (records.map listingRow)).mapError .markup

end FileQuery.Table
