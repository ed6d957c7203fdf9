import FileQuery.Toml.Scan

/-! Reading TOML documents. A document is a tree of tables; which of them may still be opened or
written to is kept beside it. -/
set_option autoImplicit false
namespace FileQuery.Toml

open Json (Value setEntry)

mutual

/-- Changes the table that a key leads to; tables on the way are made if they are not there, and an
array of tables stands for its last one, if it may. None if something else is in the way. -/
def within? (throughArrays : Bool) (change : Table → Option Table) : Key → Table → Option Table
  | [], t => change t
  | k :: ks, t =>
    match t.lookup k with
    | none => (within? throughArrays change ks []).map fun inner => setEntry k (.object inner) t
    | some v => (below? throughArrays change ks v).map fun v => setEntry k v t

def below? (throughArrays : Bool) (change : Table → Option Table) (key : Key) (v : Value) :
    Option Value :=
  match v with
  | .object inner => (within? throughArrays change key inner).map .object
  | .array vs =>
    if throughArrays then
      match vs.getLast? with
      | some (.object inner) =>
        (within? throughArrays change key inner).map fun t => .array (vs.dropLast ++ [.object t])
      | _ => none
    else none
  | _ => none

end

def addNew? (name : String) (v : Value) (t : Table) : Option Table :=
  if (t.lookup name).isSome then none else some (t ++ [(name, v)])

def addTable? (name : String) (t : Table) : Option Table :=
  match t.lookup name with
  | none => some (t ++ [(name, .array [.object []])])
  | some (.array vs) => some (setEntry name (.array (vs ++ [.object []])) t)
  | some _ => none

def isClosed : Value → Bool
  | .array _ => true
  | .object _ => true
  | _ => false

def covers (keys : List Key) (key : Key) : Bool := keys.any fun k => k.isPrefixOf key

mutual

def readValue : Nat → List Char → Except Fault (Value × List Char)
  | 0, s => fail .invalidValue s
  | n + 1, s =>
    match s with
    | '[' :: r => do
      let r ← skipGaps (r.length + 1) r
      match r with
      | ']' :: r => return (.array [], r)
      | r =>
        let (vs, r) ← readItems n r
        return (.array vs, r)
    | '\x7b' :: r =>
      match skipSpaces r with
      | '\x7d' :: r => .ok (.object [], r)
      | r => (readPairs n [] [] r).map fun p => (.object p.1, p.2)
    | s => readScalar s

def readItems : Nat → List Char → Except Fault (List Value × List Char)
  | 0, s => fail .invalidValue s
  | n + 1, s => do
    let (v, r) ← readValue n s
    match ← skipGaps (r.length + 1) r with
    | ']' :: r => return ([v], r)
    | ',' :: r =>
      match ← skipGaps (r.length + 1) r with
      | ']' :: r => return ([v], r)
      | r =>
        let (vs, r) ← readItems n r
        return (v :: vs, r)
    | r => fail .unclosedArray r

def readPair : Nat → List Char → Except Fault (Key × Value × List Char)
  | 0, s => fail .invalidValue s
  | n + 1, s => do
    let (key, r) ← readKey (s.length + 1) s
    match r with
    | '=' :: r =>
      let (v, r) ← readValue n (skipSpaces r)
      return (key, v, r)
    | r => fail .expectedEquals r

def readPairs : Nat → List Key → Table → List Char → Except Fault (Table × List Char)
  | 0, _, _, s => fail .invalidValue s
  | n + 1, closed, t, s => do
    let (key, v, r) ← readPair n s
    if covers closed key then fail (.immutable key) r
    let name := key.getLast?.getD ""
    match within? false some key.dropLast t with
    | none => fail .overwrites r
    | some _ =>
      match within? false (addNew? name v) key.dropLast t with
      | none => fail (.duplicateKey name) r
      | some t =>
        match skipSpaces r with
        | '\x7d' :: r => return (t, r)
        | ',' :: r => readPairs n (if isClosed v then key :: closed else closed) t (skipSpaces r)
        | r => fail .unclosedTable r

end

/-- A document as far as it has been read: its tree, the key of the table that pairs go to, the keys
of tables that cannot be opened again, those that are to join them at the next table, and those that
nothing below can be added to. -/
structure Document where
  tree : Table := []
  header : Key := []
  opened : List Key := []
  pending : List Key := []
  closed : List Key := []

namespace Document

def openTable (d : Document) (s : List Char) : Except Fault (Document × List Char) := do
  let (key, r) ← readKey (s.length + 1) (skipSpaces s)
  if d.opened.contains key || covers d.closed key then fail (.declaredTwice key) r
  match within? true some key d.tree with
  | none => fail .overwrites r
  | some tree =>
    match r with
    | ']' :: r => return ({ d with tree, header := key, opened := key :: d.opened }, r)
    | r => fail .tableEnd r

/-- Opens a table at the end of an array of tables: `[[key]]`. What was below the one before it can
be opened again. -/
def openItem (d : Document) (s : List Char) : Except Fault (Document × List Char) := do
  let (key, r) ← readKey (s.length + 1) (skipSpaces s)
  if covers d.closed key then fail (.immutable key) r
  let free (keys : List Key) : List Key := keys.filter fun k => !key.isPrefixOf k
  match within? true (addTable? (key.getLast?.getD "")) key.dropLast d.tree with
  | none => fail .overwrites r
  | some tree =>
    match r with
    | ']' :: ']' :: r =>
      return ({ d with
        tree, header := key, opened := key :: free d.opened, closed := free d.closed }, r)
    | r => fail .arrayTableEnd r

def addPair (d : Document) (s : List Char) : Except Fault (Document × List Char) := do
  let (key, v, r) ← readPair (2 * s.length + 2) s
  let above := (List.range (key.length - 1)).map fun k => d.header ++ key.take (k + 1)
  if let some k := above.find? d.opened.contains then fail (.redefines k) r
  let parent := d.header ++ key.dropLast
  if covers d.closed parent then fail (.immutable parent) r
  match within? true (addNew? (key.getLast?.getD "") v) parent d.tree with
  | none => fail .overwrites r
  | some tree =>
    let closed := if isClosed v then (d.header ++ key) :: d.closed else d.closed
    return ({ d with tree, pending := above ++ d.pending, closed }, r)

/-- Makes the tables that dotted keys made ones that cannot be opened. -/
def settle (d : Document) : Document :=
  { d with opened := d.pending ++ d.opened, pending := [] }

def readStatement (d : Document) (s : List Char) : Except Fault (Document × List Char) :=
  match s with
  | '[' :: '[' :: r => openItem d.settle r
  | '[' :: r => openTable d.settle r
  | '#' :: r => .ok (d, '#' :: r)
  | s =>
    if s.head?.any fun c => isBareKeyChar c || c == '"' || c == '\'' then addPair d s
    else fail .invalidStatement s

def readStatements : Nat → Document → List Char → Except Fault Document
  | 0, d, _ => .ok d
  | n + 1, d, s =>
    match skipSpaces s with
    | [] => .ok d
    | '\n' :: r => readStatements n d r
    | s => do
      let (d, r) ← readStatement d s
      match ← skipNote (skipSpaces r) with
      | [] => return d
      | '\n' :: r => readStatements n d r
      | r => fail .expectedEnd r

end Document

def joinBreaks : List Char → List Char
  | '\r' :: '\n' :: r => '\n' :: joinBreaks r
  | c :: r => c :: joinBreaks r
  | [] => []

def read (text : List Char) : Except String Table :=
  let doc := joinBreaks text
  match Document.readStatements (doc.length + 1) {} doc with
  | .ok d => .ok d.tree
  | .error f => .error (f.message doc)

end FileQuery.Toml
