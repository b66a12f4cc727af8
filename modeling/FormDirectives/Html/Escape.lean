/-! HTML text. The five characters that mark up a document are written as entities. -/

namespace FormDirectives.Html

def entity? : Char → Option String
  | '&' => some "&amp;"
  | '<' => some "&lt;"
  | '>' => some "&gt;"
  | '"' => some "&#34;"
  | '\'' => some "&#39;"
  | _ => none

theorem entity?_eq_none {c : Char} (h : entity? c = none) : c ∉ ['&', '<', '>', '"', '\''] := by
  unfold entity? at h
  split at h <;> simp_all

def isSpecial (c : Char) : Bool := (entity? c).isSome

def escapedChar (c : Char) : List Char :=
  match entity? c with
  | some e => e.toList
  | none => [c]

theorem escapedChar_of_none {c : Char} (h : entity? c = none) : escapedChar c = [c] := by
  simp only [escapedChar, h]

theorem escapedChar_of_some {c : Char} {e : String} (h : entity? c = some e) : escapedChar c = e.toList := by
  simp only [escapedChar, h]

def escape (s : String) : String := String.ofList (s.toList.flatMap escapedChar)

end FormDirectives.Html
