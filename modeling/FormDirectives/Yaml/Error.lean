import FormDirectives.Text.Quoted

/-! Why a YAML document cannot be loaded. -/

namespace FormDirectives.Yaml

/-- Fields of a date or a time that are out of range. -/
inductive MomentField
  | year (n : Nat)
  | month
  | day
  | hour
  | minute
  | second
  deriving DecidableEq, Repr

inductive Error
  /-- A character that no document may hold. -/
  | unprintable
  /-- Text that is no token where it stands. -/
  | token
  /-- Tokens that make no document, or more than one. -/
  | grammar
  /-- An alias without its anchor, or an anchor that comes twice. -/
  | reference
  /-- A node that its tag has no value for. -/
  | value
  /-- Collections that are nested too deeply. -/
  | nesting
  /-- An escape with the number of no character; halves of a surrogate pair are none. -/
  | charRange
  | charOverflow
  | notBool (text : String)
  | emptyNumber
  /-- Text that is no integer, or a decimal one of more digits than are read. -/
  | notInt (base : Nat) (text : String)
  | notFloat (text : String)
  | notMoment
  | momentRange (field : MomentField)
  | offsetRange (minutes : Int)
  deriving DecidableEq, Repr

def MomentField.message : MomentField → String
  | year n => s!"year {n} is out of range"
  | month => "month must be in 1..12"
  | day => "day is out of range for month"
  | hour => "hour must be in 0..23"
  | minute => "minute must be in 0..59"
  | second => "second must be in 0..59"

def Error.message : Error → String
  | unprintable => "a character that no YAML document may hold"
  | token => "text that is no YAML token where it stands"
  | grammar => "no single YAML document"
  | reference => "an alias without its anchor, or an anchor that comes twice"
  | value => "a tag that does not fit its node"
  | nesting => "collections are nested too deeply"
  | charRange => "an escape with the number of no character"
  | charOverflow => "an escape beyond the last character"
  | notBool text => s!"not a truth value: {Text.quoted text}"
  | emptyNumber => "a number without digits"
  | notInt base text => s!"not an integer in base {base}: {Text.quoted text}"
  | notFloat text => s!"not a number: {Text.quoted text}"
  | notMoment => "not a date"
  | momentRange field => field.message
  | offsetRange minutes => s!"a time zone that is a day or more away: {minutes} minutes"

end FormDirectives.Yaml
