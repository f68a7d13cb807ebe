import FoamDict.Toml.Datetime

/-!
# TOML values
-/

namespace FoamDict.Toml

inductive Value where
  | string (text : String)
  | integer (value : Int)
  | float (value : Float)
  | bool (value : Bool)
  | datetime (value : Datetime)
  | array (items : List Value)
  | table (entries : List (String × Value))

end FoamDict.Toml
