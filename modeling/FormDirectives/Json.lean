/-! JSON values whose object members keep their order. Floats have no place here. -/

namespace FormDirectives

inductive Json
  | null
  | bool (b : Bool)
  | int (n : Int)
  | string (s : String)
  | array (items : List Json)
  | object (members : List (String × Json))
  deriving Inhabited, Repr

end FormDirectives
