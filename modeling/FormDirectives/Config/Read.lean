import FormDirectives.Config
import FormDirectives.Data.Read

/-! Reading the options of a compilation from data. Every member is read by itself: an option that is missing
    keeps its default, and a member that is no option is a fault. -/

namespace FormDirectives

/-- What one member of the data says. -/
inductive Setting
  | strict (b : Bool)
  | escape (b : Bool)
  | datasources (table : OrderedMap String (List String))
  deriving DecidableEq

namespace Setting

def ofMember (key : String) (value : Data) : Read Setting :=
  match key with
  | "strict" => Setting.strict <$> value.readBool
  | "escape" => Setting.escape <$> value.readBool
  | "datasources" => Setting.datasources <$> value.readTable (Data.readList Data.readString)
  | _ => .fail .extraForbidden

def ofEntry (e : Data × Data) : Read Setting :=
  Read.under e.1.step <|
    match e.1 with
    | .text key => ofMember key e.2
    | _ => .fail .invalidKey

def apply (c : Config) : Setting → Config
  | strict b => { c with strict := b }
  | escape b => { c with escape := b }
  | datasources table => { c with datasources := table }

end Setting

def Config.ofData : Data → Read Config
  | .map entries =>
    match Read.all (entries.map Setting.ofEntry) with
    | .ok settings => .ok (settings.foldl Setting.apply {})
    | .error fs => .error fs
  | _ => .fail .optionsType

end FormDirectives
