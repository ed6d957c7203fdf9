/-! Values of the JSON data model, with the entries of an object in order. A number with a fraction
or an exponent is held by its shortest decimal text. -/
set_option autoImplicit false
namespace FileQuery.Json

inductive Value where
  | null
  | bool (b : Bool)
  | int (n : Int)
  | real (text : String)
  | string (s : String)
  | array (items : List Value)
  | object (entries : List (String × Value))
  deriving Inhabited

end FileQuery.Json
