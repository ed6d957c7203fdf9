import FileQuery.Text.Quoted
import FileQuery.Codec.Basic
import FileQuery.Instant.Basic

/-! Why an operation on the store fails. -/
set_option autoImplicit false
namespace FileQuery

inductive Errno where
  | notFound
  | busy
  | alreadyExists
  | notDirectory
  | isDirectory
  | invalid
  | nameTooLong
  | notEmpty
  | tooManyLinks
  deriving DecidableEq, Repr

namespace Errno

def code : Errno → Nat
  | notFound => 2
  | busy => 16
  | alreadyExists => 17
  | notDirectory => 20
  | isDirectory => 21
  | invalid => 22
  | nameTooLong => 36
  | notEmpty => 39
  | tooManyLinks => 40

def text : Errno → String
  | notFound => "No such file or directory"
  | busy => "Device or resource busy"
  | alreadyExists => "File exists"
  | notDirectory => "Not a directory"
  | isDirectory => "Is a directory"
  | invalid => "Invalid argument"
  | nameTooLong => "File name too long"
  | notEmpty => "Directory not empty"
  | tooManyLinks => "Too many levels of symbolic links"

def exceptionName : Errno → String
  | notFound => "FileNotFoundError"
  | alreadyExists => "FileExistsError"
  | notDirectory => "NotADirectoryError"
  | isDirectory => "IsADirectoryError"
  | _ => "OSError"

end Errno

/-- A piece of the report on a copied tree: an item that failed, or a letter of the message about a
file that was to be copied onto itself. -/
inductive CopyFailure where
  | item (source destination cause : String)
  | letter (c : Char)
  deriving DecidableEq, Repr

inductive StoreError where
  | os (e : Errno) (path : String)
  | osPair (e : Errno) (source destination : String)
  | sameFile (source destination : String)
  | sameMember (name destination : String)
  | removingLink
  | valueTooLarge
  | copyFailures (failures : List CopyFailure)
  deriving DecidableEq, Repr

namespace StoreError

def failureText : CopyFailure → String
  | .item source destination cause =>
    "(" ++ Text.quoted source ++ ", " ++ Text.quoted destination ++ ", " ++ Text.quoted cause ++ ")"
  | .letter c => Text.quoted (String.singleton c)

def message : StoreError → String
  | os e path => s!"[Errno {e.code}] {e.text}: " ++ Text.quoted path
  | osPair e source destination =>
    s!"[Errno {e.code}] {e.text}: " ++ Text.quoted source ++ " -> " ++ Text.quoted destination
  | sameFile source destination =>
    Text.quoted source ++ " and " ++ Text.quoted destination ++ " are the same file"
  | sameMember name destination =>
    "<DirEntry " ++ Text.quoted name ++ "> and " ++ Text.quoted destination ++ " are the same file"
  | removingLink => "Cannot call rmtree on a symbolic link"
  | valueTooLarge => Instant.StampError.beyondYears.message
  | copyFailures failures =>
    "[" ++ String.intercalate ", " (failures.map failureText) ++ "]"

def exceptionName : StoreError → String
  | os e _ | osPair e _ _ => e.exceptionName
  | sameFile .. | sameMember .. => "SameFileError"
  | copyFailures _ => "Error"
  | removingLink | valueTooLarge => "OSError"

end StoreError

end FileQuery

/-! Everything that an operation on the store may stop at: the store itself, a codec, a date that is
none, a tree that is too high, or a demand that makes no sense. -/

namespace FileQuery.Store

inductive Fault where
  | os (e : StoreError)
  | decode (f : Codec.DecodeFault)
  | encode (f : Codec.EncodeFault)
  | noMark (bits : Nat)
  | codec (message : String)
  | unknownEncoding (name : String)
  | illTypedEncoding (type : String)
  | nulInPath
  | stamp (e : Instant.StampError)
  | nested
  deriving DecidableEq, Repr

namespace Fault

def message : Fault → String
  | os e => e.message
  | decode f => f.message
  | encode f => f.message
  | noMark bits => Codec.noMarkText bits
  | codec message => message
  | unknownEncoding name => "unknown encoding: " ++ name
  | illTypedEncoding type => "open() argument 'encoding' must be str or None, not " ++ type
  | nulInPath => "embedded null byte"
  | stamp e => e.message
  | nested => "maximum recursion depth exceeded"

def exceptionName : Fault → String
  | os e => e.exceptionName
  | decode _ => "UnicodeDecodeError"
  | encode _ => "UnicodeEncodeError"
  | noMark _ | codec _ => "UnicodeError"
  | unknownEncoding _ => "LookupError"
  | illTypedEncoding _ => "TypeError"
  | nulInPath => "ValueError"
  | stamp e => e.exceptionName
  | nested => "RecursionError"

def isRefusal : Fault → Bool
  | os _ => true
  | _ => false

def isReadable : Fault → Bool
  | os _ | decode _ => true
  | _ => false

def ofRead : Codec.ReadFault → Fault
  | .decode f => decode f
  | .noMark bits => noMark bits
  | .other message => codec message

def ofWrite : Codec.WriteFault → Fault
  | .encode f => encode f
  | .other message => codec message

/-- A time beyond those that the system knows is its own refusal. -/
def ofStamp : Instant.StampError → Fault
  | .beyondYears => os .valueTooLarge
  | e => stamp e

end Fault

inductive Encoding where
  | codec (c : Codec)
  | foreign (c : Codec.Foreign)
  | unknown (name : String)
  | illTyped (type : String)

namespace Encoding

def ofName (others : String → Option Codec.Foreign) (name : String) : Encoding :=
  match Codec.ofName? name, others name with
  | some c, _ => codec c
  | none, some c => foreign c
  | none, none => unknown name

def utf8 : Encoding := codec .utf8

def read (bytes : ByteArray) : Encoding → Except Fault String
  | codec c => (c.decode true bytes).mapError .ofRead
  | foreign c => (c.decode bytes).mapError .ofRead
  | unknown name => .error (.unknownEncoding name)
  | illTyped type => .error (.illTypedEncoding type)

def checkType : Encoding → Except Fault Unit
  | illTyped type => .error (.illTypedEncoding type)
  | _ => .ok ()

end Encoding

end FileQuery.Store
