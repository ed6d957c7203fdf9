import FileQuery.Statement.Basic
import FileQuery.Statement.Phrase
import FileQuery.Statement.Token
import FileQuery.Text.Case

/-! Reading a statement from the tokens of its line. Keywords are read in any case, and clauses
stand in a fixed order:

    SELECT FILES|FOLDERS [FROM "d"] [WHERE c] [ORDER BY f [ASC|DESC]] [INTO "f"]
    DELETE FILES|FOLDERS [FROM "d"] [WHERE c]
    MOVE|COPY FILES|FOLDERS [FROM "d"] [WHERE c] TO "d"
    MOVE|COPY FILE|FOLDER "n" TO "d"      RENAME FILE|FOLDER "n" TO "m"
    CREATE FILE|FOLDER "n"                DELETE FILE|FOLDER "n"
    READ FILE "n"                         EDIT FILE "n"
    WRITE FILE "n" TO "t"                 UPDATE FILE "n" ADD "t"
    MERGE "f" "g" … TO "h"                CHMOD "n" TO "644"
    USE "d"    DROP    LOAD "s.fql"       LIST FILES|FOLDERS|*    COUNT FILES|FOLDERS|ALL

A condition is not read here: the text of a WHERE clause is cut out as it stands. -/
set_option autoImplicit false
namespace FileQuery

namespace Token

def isKeyword (t : Token) (keywords : List String) : Bool :=
  t.kind == .word && keywords.contains (String.ofList (Text.upper t.value.toList))

end Token

abbrev TokenReader := StateT (List Token) (Except SyntaxError)

namespace TokenReader

def next? : TokenReader (Option Token) := do return (← get).head?

def accept (keywords : List String) : TokenReader (Option String) := do
  match ← get with
  | [] => return none
  | t :: ts =>
    if t.isKeyword keywords then
      set ts
      return some (String.ofList (Text.upper t.value.toList))
    else return none

def expect (keywords : List String) : TokenReader String := do
  match ← accept keywords with
  | some found => return found
  | none => throw (.expectedKeyword keywords ((← next?).map (·.value)))

/-- Takes a quoted string. Only the text of a WRITE or UPDATE may be empty, and the wildcard
stands only where it is allowed. -/
def expectString (what : String) (allowWildcard : Bool := false) : TokenReader String := do
  match ← get with
  | [] => throw (.expectedString what none)
  | t :: ts =>
    if t.kind = .string then
      set ts
      if t.value == wildcard && !allowWildcard then throw (.wildcardRefused what)
      if t.value.isEmpty && what != "text" then throw (.emptyString what)
      return t.value
    else throw (.expectedString what (some t.value))

def expectEnd : TokenReader Unit := do
  match ← get with
  | [] => return ()
  | t :: _ => throw (.unexpectedToken t.value (t.start + 1))

def expectKind : TokenReader Kind := do
  match ← expect ["FILE", "FOLDER"] with
  | "FILE" => return .file
  | _ => return .folder

/-- Whether a condition ends before a token: at a terminator, a `TO` counting only in front of a
string. -/
def endsCondition (terminators : List String) (t : Token) (rest : List Token) : Bool :=
  t.isKeyword terminators &&
    (!t.isKeyword ["TO"] || (rest.head?.map (·.kind)) == some .string)

/-- Splits the tokens of a condition from those after it; terminators inside parentheses belong to
the condition, and a parenthesis that closes nothing changes no depth. -/
def cutCondition (terminators : List String) : Nat → List Token → List Token × List Token
  | _, [] => ([], [])
  | depth, t :: ts =>
    let go (d : Nat) : List Token × List Token :=
      let (own, rest) := cutCondition terminators d ts
      (t :: own, rest)
    match t.kind with
    | .opening => go (depth + 1)
    | .closing => go (depth - 1)
    | _ => if depth = 0 && endsCondition terminators t ts then ([], t :: ts) else go depth

def slice (line : List Char) (start stop : Nat) : List Char := (line.take stop).drop start

def conditionText (line : List Char) (terminators : List String) : TokenReader String := do
  let (own, rest) := cutCondition terminators 0 (← get)
  set rest
  match own.head?, own.getLast? with
  | some first, some last =>
    return String.ofList (Text.trim (slice line first.start last.stop))
  | _, _ => throw .noCondition

def source (line : List Char) (terminators : List String) : TokenReader Source := do
  let folder ← match ← accept ["FROM"] with
    | some _ => some <$> expectString "source folder"
    | none => pure none
  let clause ← match ← accept ["WHERE"] with
    | some _ => some <$> conditionText line terminators
    | none => pure none
  return { folder, clause }

def order : TokenReader (Option SortSpec) := do
  match ← accept ["ORDER"] with
  | none => return none
  | some _ =>
    let _ ← expect ["BY"]
    match ← get with
    | t :: ts =>
      if t.kind = .word && !t.isKeyword ["INTO"] then
        set ts
        match ← accept ["ASC", "DESC"] with
        | some "DESC" => return some ⟨t.value, .descending⟩
        | _ => return some ⟨t.value, .ascending⟩
      else throw .noSortField
    | [] => throw .noSortField

def sourceFiles : List Token → Except SyntaxError (List String × List Token)
  | [] => .ok ([], [])
  | t :: ts =>
    if t.kind = .string then do
      let (name, _) ← (expectString "source file").run [t]
      let (names, rest) ← sourceFiles ts
      return (name :: names, rest)
    else .ok ([], t :: ts)

end TokenReader

/-- Three octal digits, a zero allowed in front and a line feed behind. -/
def isPermissionMode (mode : List Char) : Bool :=
  let body := match mode.reverse with
    | '\n' :: r => r.reverse
    | _ => mode
  let octalDigit (c : Char) : Bool := decide ('0' ≤ c) && decide (c ≤ '7')
  body.all octalDigit &&
    (body.length == 3 || (body.length == 4 && body.head? == some '0'))

def isScriptName (path : String) : Bool :=
  ".fql".toList.isSuffixOf (Text.lower path.toList)

namespace Statement
open TokenReader

def readLoad : TokenReader Statement := do
  let path ← expectString "script path"
  if isScriptName path then return .load path else throw .notAScript

def readCreate : TokenReader Statement := do
  let kind ← expectKind
  return .create kind (← expectString (kind.noun ++ " name"))

def readRead : TokenReader Statement := do
  let _ ← expect ["FILE"]
  return .read (← expectString "file name" true)

def readEdit : TokenReader Statement := do
  let _ ← expect ["FILE"]
  return .edit (← expectString "file name")

def readWrite : TokenReader Statement := do
  let _ ← expect ["FILE"]
  let name ← expectString "file name"
  let _ ← expect ["TO"]
  return .write name (← expectString "text")

def readAppend : TokenReader Statement := do
  let _ ← expect ["FILE"]
  let name ← expectString "file name"
  let _ ← expect ["ADD"]
  return .append name (← expectString "text")

def readDelete (line : List Char) : TokenReader Statement := do
  match ← expect ["FILE", "FOLDER", "FILES", "FOLDERS"] with
  | "FILE" => return .delete .file (← expectString "file name" true)
  | "FOLDER" => return .delete .folder (← expectString "folder name" true)
  | "FILES" => return .deleteAll .file (← source line [])
  | _ => return .deleteAll .folder (← source line [])

def readList : TokenReader Statement := do
  match ← expect ["FILE", "FILES", "FOLDER", "FOLDERS", "*", "ALL"] with
  | "FILE" | "FILES" => return .list (some .file)
  | "FOLDER" | "FOLDERS" => return .list (some .folder)
  | _ => return .list none

def readCount : TokenReader Statement := do
  match ← expect ["FILES", "FILE", "FOLDERS", "FOLDER", "ALL", "*"] with
  | "FILES" | "FILE" => return .count (some .file)
  | "FOLDERS" | "FOLDER" => return .count (some .folder)
  | _ => return .count none

def readTransferOne (mode : Transfer) (kind : Kind) : TokenReader Statement := do
  let name ← expectString (kind.noun ++ " name") true
  let _ ← expect ["TO"]
  return .transfer mode kind name (← expectString "target folder")

def readTransferAll (line : List Char) (mode : Transfer) (kind : Kind) : TokenReader Statement := do
  let source ← source line ["TO"]
  let _ ← expect ["TO"]
  return .transferAll mode kind (← expectString "target folder") source

def readTransfer (line : List Char) (mode : Transfer) : TokenReader Statement := do
  match ← expect ["FILE", "FOLDER", "FILES", "FOLDERS"] with
  | "FILE" => readTransferOne mode .file
  | "FOLDER" => readTransferOne mode .folder
  | "FILES" => readTransferAll line mode .file
  | _ => readTransferAll line mode .folder

def readRename : TokenReader Statement := do
  let kind ← expectKind
  let old ← expectString (kind.noun ++ " name")
  let _ ← expect ["TO"]
  return .rename kind old (← expectString "new name")

def readSelect (line : List Char) : TokenReader Statement := do
  let kind : Kind := match ← expect ["FILES", "FOLDERS"] with
    | "FILES" => .file
    | _ => .folder
  let source ← source line ["ORDER", "INTO"]
  let order ← order
  let into ← match ← accept ["INTO"] with
    | some _ => some <$> expectString "output file"
    | none => pure none
  return .select kind source order into

def readMerge : TokenReader Statement := do
  let (sources, rest) ← sourceFiles (← get)
  set rest
  if sources.isEmpty then throw .noMergeSource
  let _ ← expect ["TO"]
  return .merge sources (← expectString "destination file")

def readChmod : TokenReader Statement := do
  let name ← expectString "name"
  let _ ← expect ["TO"]
  let mode ← expectString "mode"
  if isPermissionMode mode.toList then return .chmod name mode else throw (.invalidMode mode)

def readerOf (line : List Char) : String → Option (TokenReader Statement)
  | "LOAD" => some readLoad
  | "CREATE" => some readCreate
  | "READ" => some readRead
  | "EDIT" | "FMLE" => some readEdit
  | "WRITE" => some readWrite
  | "UPDATE" => some readAppend
  | "DELETE" => some (readDelete line)
  | "USE" => some (.use <$> expectString "folder name")
  | "DROP" => some (pure .drop)
  | "LIST" => some readList
  | "MOVE" => some (readTransfer line .move)
  | "COPY" => some (readTransfer line .copy)
  | "RENAME" => some readRename
  | "COUNT" => some readCount
  | "SELECT" => some (readSelect line)
  | "MERGE" => some readMerge
  | "CHMOD" => some readChmod
  | _ => none

def readAll (line : List Char) : TokenReader Statement := do
  match ← get with
  | [] => throw .noCommand
  | t :: ts =>
    if t.kind != .word then throw .noCommand
    let verb := String.ofList (Text.upper t.value.toList)
    match readerOf line verb with
    | none => throw (.unknownCommand verb)
    | some reader =>
      set ts
      let statement ← reader
      expectEnd
      return statement

def read? (line : List Char) : Except SyntaxError Statement := do
  let tokens ← tokenize line
  let (statement, _) ← (readAll line).run tokens
  return statement

/-- The statement of any line; a line that fits no form is `unknown`, with the reason. -/
def parse (line : String) : Statement :=
  let text := Text.trim line.toList
  match read? text with
  | .ok statement => statement
  | .error reason => .unknown (String.ofList text) reason

end Statement

end FileQuery
