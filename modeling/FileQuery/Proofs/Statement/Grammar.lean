import FileQuery.Proofs.Statement.Token
import FileQuery.Statement.Parser

/-! # The forms of statements

A statement is printed as a list of symbols (`Form`), each symbol in one of the ways it can be typed,
with blanks between them (`Rendered`). Which statements can be printed at all depends on their fields
(`Printable`). -/
set_option autoImplicit false
namespace FileQuery

inductive Symbol where
  | keyword (name : String)
  | quoted (value : String)
  | bare (word : String)
  | condition (text : String)

/-- Whether a text is one way to type a symbol: a keyword in any case, a string between quotes of
either kind, and any other symbol as it is. -/
def Symbol.Typed : Symbol → List Char → Prop
  | keyword name, s => Token.Spells name s
  | quoted value, s => ∃ q, Token.isQuote q = true ∧ Token.Enclosed q value.toList ∧
      s = q :: (value.toList ++ [q])
  | bare word, s => s = word.toList
  | condition text, s => s = text.toList

/-- Whether a text is made of symbols with blanks between each two. -/
inductive Rendered : List Symbol → List Char → Prop where
  | last {x : Symbol} {s : List Char} (typed : x.Typed s) : Rendered [x] s
  | more {x : Symbol} {xs : List Symbol} {w gap s : List Char} (typed : x.Typed w)
      (parts : Text.Gap gap) (rest : Rendered xs s) : Rendered (x :: xs) (w ++ (gap ++ s))

/-! ## Forms -/

def Kind.plural : Kind → String
  | file => "FILES"
  | folder => "FOLDERS"

def Transfer.verb : Transfer → String
  | move => "MOVE"
  | copy => "COPY"

/-- The words that LIST and COUNT take for a kind, or for all entries. -/
def entryWords : Option Kind → List String
  | some .file => ["FILE", "FILES"]
  | some .folder => ["FOLDER", "FOLDERS"]
  | none => ["ALL", "*"]

namespace Symbol

/-- A keyword and the string after it, where there is one. -/
def clause (name : String) : Option String → List Symbol
  | some value => [keyword name, quoted value]
  | none => []

def restriction : Option String → List Symbol
  | some text => [keyword "WHERE", condition text]
  | none => []

def source (s : Source) : List Symbol := clause "FROM" s.folder ++ restriction s.clause

end Symbol

open Symbol in
/-- The symbols of an ORDER BY clause; ascending order need not be said. -/
inductive OrderForm : Option SortSpec → List Symbol → Prop where
  | none : OrderForm none []
  | plain (field : String) :
      OrderForm (some ⟨field, .ascending⟩) [keyword "ORDER", keyword "BY", bare field]
  | ascending (field : String) :
      OrderForm (some ⟨field, .ascending⟩) [keyword "ORDER", keyword "BY", bare field, keyword "ASC"]
  | descending (field : String) :
      OrderForm (some ⟨field, .descending⟩)
        [keyword "ORDER", keyword "BY", bare field, keyword "DESC"]

open Symbol in
inductive Form : Statement → List Symbol → Prop where
  | load (path : String) : Form (.load path) [keyword "LOAD", quoted path]
  | create (kind : Kind) (name : String) :
      Form (.create kind name) [keyword "CREATE", keyword kind.title, quoted name]
  | read (name : String) : Form (.read name) [keyword "READ", keyword "FILE", quoted name]
  | edit {verb : String} (either : verb = "EDIT" ∨ verb = "FMLE") (name : String) :
      Form (.edit name) [keyword verb, keyword "FILE", quoted name]
  | write (name content : String) :
      Form (.write name content)
        [keyword "WRITE", keyword "FILE", quoted name, keyword "TO", quoted content]
  | append (name content : String) :
      Form (.append name content)
        [keyword "UPDATE", keyword "FILE", quoted name, keyword "ADD", quoted content]
  | delete (kind : Kind) (name : String) :
      Form (.delete kind name) [keyword "DELETE", keyword kind.title, quoted name]
  | use (folder : String) : Form (.use folder) [keyword "USE", quoted folder]
  | drop : Form .drop [keyword "DROP"]
  | list {kind : Option Kind} {word : String} (named : word ∈ entryWords kind) :
      Form (.list kind) [keyword "LIST", keyword word]
  | count {kind : Option Kind} {word : String} (named : word ∈ entryWords kind) :
      Form (.count kind) [keyword "COUNT", keyword word]
  | transfer (mode : Transfer) (kind : Kind) (name target : String) :
      Form (.transfer mode kind name target)
        [keyword mode.verb, keyword kind.title, quoted name, keyword "TO", quoted target]
  | rename (kind : Kind) (old new : String) :
      Form (.rename kind old new)
        [keyword "RENAME", keyword kind.title, quoted old, keyword "TO", quoted new]
  | chmod (name mode : String) :
      Form (.chmod name mode) [keyword "CHMOD", quoted name, keyword "TO", quoted mode]
  | merge (sources : List String) (destination : String) :
      Form (.merge sources destination)
        (keyword "MERGE" :: (sources.map quoted ++ [keyword "TO", quoted destination]))
  | deleteAll (kind : Kind) (source : Source) :
      Form (.deleteAll kind source) (keyword "DELETE" :: keyword kind.plural :: Symbol.source source)
  | transferAll (mode : Transfer) (kind : Kind) (target : String) (source : Source) :
      Form (.transferAll mode kind target source)
        (keyword mode.verb :: keyword kind.plural ::
          (Symbol.source source ++ [keyword "TO", quoted target]))
  | select (kind : Kind) (source : Source) {order : Option SortSpec} {os : List Symbol}
      (ordered : OrderForm order os) (into : Option String) :
      Form (.select kind source order into)
        (keyword "SELECT" :: keyword kind.plural ::
          (Symbol.source source ++ (os ++ clause "INTO" into)))

/-! ## Fields that can be printed -/

/-- Whether a string can stand where neither the empty string nor the wildcard can. -/
def Named (s : String) : Prop := s ≠ "" ∧ s ≠ wildcard

/-- Whether the tokens of a condition hold nothing, outside parentheses, that would end it. -/
def Unended (terminators : List String) (ts : List Token) : Prop :=
  ∀ before t behind, ts = before ++ t :: behind → Token.levelAfter 0 before = 0 →
    TokenReader.endsCondition terminators t behind = false

/-- Whether a text can be a condition in front of clauses that such terminators begin; its
parentheses need to be closed if one of them follows. -/
structure ConditionText (terminators : List String) (followed : Prop) (text : String) : Prop where
  trimmed : Text.trim text.toList = text.toList
  tokens : ∃ ts, tokenize text.toList = .ok ts ∧ ts ≠ [] ∧ Unended terminators ts ∧
    (followed → Token.levelAfter 0 ts = 0)

structure Source.Printable (terminators : List String) (followed : Prop) (s : Source) : Prop where
  folder : ∀ f ∈ s.folder, Named f
  clause : ∀ c ∈ s.clause, ConditionText terminators followed c

/-- Whether a word can be the field of an ORDER BY clause. -/
def SortSpec.Printable (o : SortSpec) : Prop :=
  Token.Bare o.field.toList ∧ ¬ Token.Spells "INTO" o.field.toList

/-- Whether the fields of a statement can be printed. -/
def Statement.Printable : Statement → Prop
  | load path => Named path ∧ isScriptName path = true
  | create _ name | edit name | use name => Named name
  | read name | delete _ name => name ≠ ""
  | write name content | append name content => Named name ∧ content ≠ wildcard
  | drop | list _ | count _ => True
  | transfer _ _ name target => name ≠ "" ∧ Named target
  | rename _ old new => Named old ∧ Named new
  | chmod name mode => Named name ∧ Named mode ∧ isPermissionMode mode.toList = true
  | merge sources destination => sources ≠ [] ∧ (∀ s ∈ sources, Named s) ∧ Named destination
  | deleteAll _ source => source.Printable [] False
  | transferAll _ _ target source => Named target ∧ source.Printable ["TO"] True
  | select _ source order into =>
    source.Printable ["ORDER", "INTO"] (order ≠ none ∨ into ≠ none) ∧
      (∀ o ∈ order, o.Printable) ∧ ∀ f ∈ into, Named f
  | unknown _ _ => False

end FileQuery
