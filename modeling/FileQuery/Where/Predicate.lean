import FileQuery.Text.Case
import FileQuery.Instant.Literal
import FileQuery.Record
import FileQuery.Where.Condition

/-! LIKE patterns: `%` stands for any run of characters, `_` for any one, and every other character
for one that is like it in any case. -/
set_option autoImplicit false
namespace FileQuery.Where

inductive Wildcard where
  | run
  | one
  | exact (key : Nat)
  deriving DecidableEq, Repr

namespace Wildcard

def ofChar (c : Char) : Wildcard :=
  if c = '%' then run else if c = '_' then one else exact (Text.fold c)

/-- Given, for each end of a text, whether the rest of a pattern matches it, says for each end
whether this piece followed by that rest does. The list has one entry more than the text. -/
def extend (w : Wildcard) : List Nat → List Bool → List Bool
  | [], rest =>
    match w with
    | run => rest
    | _ => [false]
  | k :: ks, here :: rest =>
    let later := extend w ks rest
    let now := match w with
      | run => here || later.headD false
      | one => rest.headD false
      | exact key => key == k && rest.headD false
    now :: later
  | _ :: _, [] => []

def ends (keys : List Nat) : List Wildcard → List Bool
  | [] => keys.map (fun _ => false) ++ [true]
  | w :: ws => w.extend keys (ends keys ws)

end Wildcard

def matchesLike (pattern text : List Char) : Bool :=
  (Wildcard.ends (text.map Text.fold) (pattern.map Wildcard.ofChar)).headD false

/-! Predicates: conditions with their literals read once, ready to test records. -/

/-- A read that failed: the entry is unreadable, or the read itself could not be asked for. -/
inductive ReadFault where
  | unreadable (cause : String)
  | failed (cause : String)
  deriving DecidableEq, Repr

/-- What conditions on content may look at: files up to a size, through a reader of the store if
there is one. A limit that is no number spoils every test that asks for it. -/
structure Contents where
  limit : Except String Int := .ok 10485760
  read : Option (String → Except ReadFault String) := none

namespace Comparison

def holdsText (c : Comparison) (a b : String) : Bool :=
  match c with
  | eq => a == b
  | ne => a != b
  | _ => false

def holds (c : Comparison) (a b : Int) : Bool :=
  match c with
  | eq => decide (a = b)
  | ne => decide (a ≠ b)
  | gt => decide (b < a)
  | lt => decide (a < b)
  | ge => decide (b ≤ a)
  | le => decide (a ≤ b)

end Comparison

inductive Test where
  | nameLike (pattern : List Char)
  | contentLike (pattern : List Char)
  | name (c : Comparison) (value : String)
  | extension (c : Comparison) (value : String)
  | size (c : Comparison) (value : Int)
  | modified (c : Comparison) (value : Instant)
  | created (c : Comparison) (value : Instant)
  | permissions (c : Comparison) (value : Nat)
  deriving DecidableEq, Repr

structure Predicate where
  condition : Condition
  test : Test
  deriving DecidableEq, Repr

namespace Condition

def dateOf? (literal : String) : Option Instant :=
  match DateTime.read literal with
  | .ok t => some t.truncateToMillis.toInstant
  | .error _ => none

def toTest (c : Condition) : Except Reason Test :=
  match c.operator, c.subject with
  | .like, .content => .ok (.contentLike c.literal.toList)
  | .like, _ => .ok (.nameLike c.literal.toList)
  | .compare op, .size =>
    match Text.readDecimal c.literal.toList with
    | .ok n => .ok (.size op n)
    | .error _ => .error (.notAnInteger c.literal)
  | .compare op, .modified =>
    match dateOf? c.literal with
    | some i => .ok (.modified op i)
    | none => .error (.invalidDate c.literal)
  | .compare op, .created =>
    match dateOf? c.literal with
    | some i => .ok (.created op i)
    | none => .error (.invalidDate c.literal)
  | .compare op, .permissions =>
    match Text.readOctal? c.literal.toList with
    | some n => .ok (.permissions op (permissionBits n))
    | none => .error (.invalidMode c.literal)
  | .compare op, .extension =>
    .ok (.extension op (String.ofList (normalizeExtension c.literal.toList)))
  | .compare op, _ => .ok (.name op c.literal)

end Condition

namespace Predicate

def ofText (text : List Char) : Except ConditionError Predicate := do
  let condition ← Condition.parse text
  match condition.toTest with
  | .ok test => return { condition, test }
  | .error reason => throw ⟨condition.text, reason⟩

/-- Whether the content of a record matches. Folders and files beyond the limit never do. -/
def testContent (contents : Contents) (pattern : List Char) (r : Record) : Except Reason Bool :=
  if r.isFolder then .ok false
  else match contents.limit with
    | .error cause => .error (.failed cause)
    | .ok limit =>
      if limit < r.size then .ok false
      else match contents.read with
        | none => .error .noContent
        | some read =>
          match read r.path with
          | .ok text => .ok (matchesLike pattern text.toList)
          | .error (.unreadable cause) => .error (.unreadable r.name cause)
          | .error (.failed cause) => .error (.failed cause)

def test? (p : Predicate) (contents : Contents) (r : Record) : Except Reason Bool :=
  match p.test with
  | .nameLike pattern => .ok (matchesLike pattern r.name.toList)
  | .contentLike pattern => testContent contents pattern r
  | .name c v => .ok (c.holdsText r.name v)
  | .extension c v => .ok (c.holdsText r.extension v)
  | .size c v => .ok (c.holds r.size v)
  | .modified c v => .ok (c.holds r.modified.truncateToMillis.micros v.micros)
  | .created c v => .ok (c.holds r.created.truncateToMillis.micros v.micros)
  | .permissions c v => .ok (c.holds r.permissions v)

/-- Whether a record passes, and what is reported; a test that fails counts as not passed. -/
def holds (p : Predicate) (contents : Contents) (r : Record) : Bool × List ConditionError :=
  match p.test? contents r with
  | .ok b => (b, [])
  | .error reason => (false, [⟨p.condition.text, reason⟩])

end Predicate

end FileQuery.Where
